import LedgerClient.Identifier

/-!
# The BLAKE3 hash

The input is cut into chunks of 1024 octets and each chunk into blocks of 64.  The
chunks are the leaves of a binary tree; a node of the tree is an `Output` that is
compressed once it is known whether it is the root.
-/

namespace LedgerClient

namespace Blake3

abbrev Words (n : Nat) := Vector UInt32 n

def initialValue : Words 8 :=
  #v[0x6A09E667, 0xBB67AE85, 0x3C6EF372, 0xA54FF53A, 0x510E527F, 0x9B05688C, 0x1F83D9AB, 0x5BE0CD19]

def chunkStart : UInt32 := 1

def chunkEnd : UInt32 := 2

def parentFlag : UInt32 := 4

def rootFlag : UInt32 := 8

def rotateRight (x : UInt32) (count : UInt32) : UInt32 :=
  (x >>> count) ||| (x <<< (32 - count))

def mix (v : Words 16) (a b c d : Fin 16) (x y : UInt32) : Words 16 :=
  let va := v.get a + v.get b + x
  let vd := rotateRight (v.get d ^^^ va) 16
  let vc := v.get c + vd
  let vb := rotateRight (v.get b ^^^ vc) 12
  let va := va + vb + y
  let vd := rotateRight (vd ^^^ va) 8
  let vc := vc + vd
  let vb := rotateRight (vb ^^^ vc) 7
  (((v.set a va).set b vb).set c vc).set d vd

def round (v m : Words 16) : Words 16 :=
  let v := mix v 0 4 8 12 (m.get 0) (m.get 1)
  let v := mix v 1 5 9 13 (m.get 2) (m.get 3)
  let v := mix v 2 6 10 14 (m.get 4) (m.get 5)
  let v := mix v 3 7 11 15 (m.get 6) (m.get 7)
  let v := mix v 0 5 10 15 (m.get 8) (m.get 9)
  let v := mix v 1 6 11 12 (m.get 10) (m.get 11)
  let v := mix v 2 7 8 13 (m.get 12) (m.get 13)
  mix v 3 4 9 14 (m.get 14) (m.get 15)

def permute (m : Words 16) : Words 16 :=
  #v[m.get 2, m.get 6, m.get 3, m.get 10, m.get 7, m.get 0, m.get 4, m.get 13,
    m.get 1, m.get 11, m.get 12, m.get 5, m.get 9, m.get 14, m.get 15, m.get 8]

def rounds : (count : Nat) → Words 16 → Words 16 → Words 16
  | 0, v, _ => v
  | count + 1, v, m => rounds count (round v m) (permute m)

/-- A node of the tree before it is compressed. -/
structure Output where
  chaining : Words 8
  block : Words 16
  counter : Nat
  blockLength : Nat
  flags : UInt32

/-- The eight words that a node hands to its parent, or that are the hash if it is the root. -/
def Output.compress (o : Output) (extra : UInt32) : Words 8 :=
  let c := o.chaining
  let v : Words 16 :=
    #v[c.get 0, c.get 1, c.get 2, c.get 3, c.get 4, c.get 5, c.get 6, c.get 7,
      initialValue.get 0, initialValue.get 1, initialValue.get 2, initialValue.get 3,
      UInt32.ofNat o.counter, UInt32.ofNat (o.counter / 4294967296),
      UInt32.ofNat o.blockLength, o.flags ||| extra]
  let v := rounds 7 v o.block
  Vector.ofFn fun i : Fin 8 =>
    v.get ⟨i.val, by omega⟩ ^^^ v.get ⟨i.val + 8, by omega⟩

/-- The sixteen words of a block; missing octets are zero. -/
def blockWords (block : Bytes) : Words 16 :=
  let octets := (block ++ List.replicate (64 - block.length) 0).toArray
  Vector.ofFn fun i : Fin 16 =>
    let octet (k : Nat) : UInt32 := (octets.getD (4 * i.val + k) 0).toUInt32
    octet 0 ||| (octet 1 <<< 8) ||| (octet 2 <<< 16) ||| (octet 3 <<< 24)

/-- The node of one chunk: every block but the last is compressed into the chaining value. -/
def chunkOutput (counter : Nat) : (blocks : Nat) → Words 8 → UInt32 → Bytes → Output
  | 0, chaining, start, bs =>
      ⟨chaining, blockWords (bs.take 64), counter, (bs.take 64).length, start ||| chunkEnd⟩
  | blocks + 1, chaining, start, bs =>
      let block := bs.take 64
      let rest := bs.drop 64
      match rest with
      | [] => ⟨chaining, blockWords block, counter, block.length, start ||| chunkEnd⟩
      | _ :: _ =>
          let here : Output := ⟨chaining, blockWords block, counter, 64, start⟩
          chunkOutput counter blocks (here.compress 0) 0 rest

/-- Cuts the input into at most `more + 1` chunks; an empty input has one empty chunk. -/
def leaves : (more counter : Nat) → Bytes → List Output
  | 0, counter, bs => [chunkOutput counter 16 initialValue chunkStart (bs.take 1024)]
  | more + 1, counter, bs =>
      let here := chunkOutput counter 16 initialValue chunkStart (bs.take 1024)
      match bs.drop 1024 with
      | [] => [here]
      | next :: rest => here :: leaves more (counter + 1) (next :: rest)

def parent (left right : Output) : Output :=
  { chaining := initialValue
    block := left.compress 0 ++ right.compress 0
    counter := 0
    blockLength := 64
    flags := parentFlag }

/-- Joins neighbours; a last node without a neighbour waits for the next level. -/
def joinPairs : List Output → List Output
  | left :: right :: rest => parent left right :: joinPairs rest
  | rest => rest

theorem length_joinPairs (nodes : List Output) :
    (joinPairs nodes).length = (nodes.length + 1) / 2 := by
  induction nodes using joinPairs.induct with
  | case1 left right rest ih =>
      simp only [joinPairs, List.length_cons, ih]
      omega
  | case2 rest h =>
      match rest with
      | [] => rfl
      | [_] => simp [joinPairs]
      | left :: right :: rest => exact absurd rfl (h left right rest)

def root : Output → List Output → Output
  | only, [] => only
  | first, second :: rest =>
      match _h : joinPairs (first :: second :: rest) with
      | [] => first
      | top :: others => root top others
termination_by _ others => others.length
decreasing_by
  have hlen := length_joinPairs (first :: second :: rest)
  rw [_h] at hlen
  simp only [List.length_cons] at hlen ⊢
  omega

def wordOctets (w : UInt32) : Bytes :=
  Bytes.littleEndian 4 w.toNat

theorem length_flatMap_wordOctets (ws : List UInt32) :
    (ws.flatMap wordOctets).length = 4 * ws.length := by
  induction ws with
  | nil => rfl
  | cons w rest ih =>
      simp only [List.flatMap_cons, List.length_append, ih, wordOctets, Bytes.length_littleEndian,
        List.length_cons]
      omega

def hash (bs : Bytes) : Hash :=
  let words :=
    match leaves (bs.length / 1024) 0 bs with
    | [] => initialValue
    | first :: rest => (root first rest).compress rootFlag
  ⟨words.toList.flatMap wordOctets, by rw [length_flatMap_wordOctets, Vector.length_toList]⟩

end Blake3

end LedgerClient
