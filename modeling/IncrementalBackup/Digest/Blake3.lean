/-!
# The BLAKE3 digest

Bytes are cut into chunks of 1024 and these into blocks of 64. Every chunk yields a chaining value,
and neighbouring values are joined pairwise, level by level, until the root is left, whose output is
the digest of 32 bytes.
-/

namespace IncrementalBackup.Blake3

def initial : Vector UInt32 8 :=
  #v[0x6A09E667, 0xBB67AE85, 0x3C6EF372, 0xA54FF53A, 0x510E527F, 0x9B05688C, 0x1F83D9AB, 0x5BE0CD19]

def chunkStart : UInt32 := 1
def chunkEnd : UInt32 := 2
def parentNode : UInt32 := 4
def rootNode : UInt32 := 8

def rotateRight (x : UInt32) (n : UInt32) : UInt32 := (x >>> n) ||| (x <<< (32 - n))

def mix (s : Vector UInt32 16) (a b c d : Fin 16) (x y : UInt32) : Vector UInt32 16 :=
  let a₁ := s[a] + s[b] + x
  let d₁ := rotateRight (s[d] ^^^ a₁) 16
  let c₁ := s[c] + d₁
  let b₁ := rotateRight (s[b] ^^^ c₁) 12
  let a₂ := a₁ + b₁ + y
  let d₂ := rotateRight (d₁ ^^^ a₂) 8
  let c₂ := c₁ + d₂
  let b₂ := rotateRight (b₁ ^^^ c₂) 7
  (((s.set a a₂).set b b₂).set c c₂).set d d₂

def round (s m : Vector UInt32 16) : Vector UInt32 16 :=
  let s := mix s 0 4 8 12 m[0] m[1]
  let s := mix s 1 5 9 13 m[2] m[3]
  let s := mix s 2 6 10 14 m[4] m[5]
  let s := mix s 3 7 11 15 m[6] m[7]
  let s := mix s 0 5 10 15 m[8] m[9]
  let s := mix s 1 6 11 12 m[10] m[11]
  let s := mix s 2 7 8 13 m[12] m[13]
  mix s 3 4 9 14 m[14] m[15]

def permute (m : Vector UInt32 16) : Vector UInt32 16 :=
  #v[m[2], m[6], m[3], m[10], m[7], m[0], m[4], m[13], m[1], m[11], m[12], m[5], m[9], m[14], m[15],
    m[8]]

def rounds : Nat → Vector UInt32 16 → Vector UInt32 16 → Vector UInt32 16
  | 0, s, _ => s
  | n + 1, s, m => rounds n (round s m) (permute m)

/-- The chaining value that a block of `length` bytes yields after `chaining`. -/
def compress (chaining : Vector UInt32 8) (m : Vector UInt32 16) (counter : UInt64)
    (length flags : UInt32) : Vector UInt32 8 :=
  let start : Vector UInt32 16 :=
    #v[chaining[0], chaining[1], chaining[2], chaining[3], chaining[4], chaining[5], chaining[6],
      chaining[7], initial[0], initial[1], initial[2], initial[3], counter.toUInt32,
      (counter >>> 32).toUInt32, length, flags]
  let s := rounds 7 start m
  #v[s[0] ^^^ s[8], s[1] ^^^ s[9], s[2] ^^^ s[10], s[3] ^^^ s[11], s[4] ^^^ s[12], s[5] ^^^ s[13],
    s[6] ^^^ s[14], s[7] ^^^ s[15]]

def word : List UInt8 → UInt32
  | a :: b :: c :: d :: _ =>
    a.toUInt32 ||| (b.toUInt32 <<< 8) ||| (c.toUInt32 <<< 16) ||| (d.toUInt32 <<< 24)
  | [a, b, c] => a.toUInt32 ||| (b.toUInt32 <<< 8) ||| (c.toUInt32 <<< 16)
  | [a, b] => a.toUInt32 ||| (b.toUInt32 <<< 8)
  | [a] => a.toUInt32
  | [] => 0

/-- A block as words, filled up with zeros. -/
def message (block : List UInt8) : Vector UInt32 16 :=
  Vector.ofFn (fun i : Fin 16 => word (block.drop (4 * i.val)))

/-- Cuts a list into pieces of `size`, the last one possibly shorter; the empty list is one piece. -/
def pieces (size : Nat) : Nat → List UInt8 → List (List UInt8)
  | 0, l => [l]
  | rounds + 1, l =>
    let rest := l.drop size
    if rest.isEmpty then [l] else l.take size :: pieces size rounds rest

def chunkValue (counter : UInt64) (last : UInt32) :
    UInt32 → Vector UInt32 8 → List (List UInt8) → Vector UInt32 8
  | _, chaining, [] => chaining
  | first, chaining, [block] =>
    compress chaining (message block) counter block.length.toUInt32 (first ||| chunkEnd ||| last)
  | first, chaining, block :: rest =>
    chunkValue counter last 0 (compress chaining (message block) counter 64 first) rest

def chunk (index : Nat) (last : UInt32) (bytes : List UInt8) : Vector UInt32 8 :=
  chunkValue index.toUInt64 last chunkStart initial (pieces 64 16 bytes)

def joined (flags : UInt32) (left right : Vector UInt32 8) : Vector UInt32 8 :=
  compress initial ((left ++ right).cast (by decide)) 0 64 (parentNode ||| flags)

/-- One level of the tree over another; a value without neighbour moves up. -/
def level : List (Vector UInt32 8) → List (Vector UInt32 8)
  | left :: right :: rest => joined 0 left right :: level rest
  | rest => rest

def rootValue : Nat → List (Vector UInt32 8) → Vector UInt32 8
  | _, [] => initial
  | _, [value] => value
  | _, [left, right] => joined rootNode left right
  | 0, value :: _ => value
  | rounds + 1, values => rootValue rounds (level values)

def littleEndian (w : UInt32) : List UInt8 :=
  [w.toUInt8, (w >>> 8).toUInt8, (w >>> 16).toUInt8, (w >>> 24).toUInt8]

def digest (bytes : List UInt8) : List UInt8 :=
  let chunks := pieces 1024 bytes.length bytes
  let value := match chunks with
    | [only] => chunk 0 rootNode only
    | _ => rootValue chunks.length (chunks.mapIdx (fun i piece => chunk i 0 piece))
  value.toList.flatMap littleEndian

end IncrementalBackup.Blake3
