import Blossom.OrderedMap
import Mathlib.Algebra.Group.Nat.Defs
import Mathlib.Data.List.Lex

/-!
# Binary codecs

A codec writes values as bytes and reads them back from the front of a byte list. What it has
written it reads, whatever follows.
-/

namespace Blossom.ByteCodec

open OrderedMap

variable {α β K V : Type}

structure ByteString where
  bytes : List UInt8
  deriving DecidableEq

def ByteString.code (s : ByteString) : List ℕ := s.bytes.map UInt8.toNat

theorem ByteString.code_injective : Function.Injective ByteString.code := by
  rintro ⟨a⟩ ⟨b⟩ h
  have hab : a = b := List.map_injective_iff.mpr (fun _ _ h => UInt8.toNat_inj.mp h) h
  rw [hab]

instance : LinearOrder ByteString := LinearOrder.lift' ByteString.code ByteString.code_injective

structure Codec (α : Type) where
  encode : α → Option (List UInt8)
  decode : List UInt8 → Option (α × List UInt8)
  decode_encode : ∀ {a : α} {bytes : List UInt8} (rest : List UInt8),
    encode a = some bytes → decode (bytes ++ rest) = some (a, rest)

namespace Codec

def fromSlice (c : Codec α) (bytes : List UInt8) : Option α :=
  match c.decode bytes with
  | some (a, []) => some a
  | _ => none

theorem fromSlice_encode (c : Codec α) {a : α} {bytes : List UInt8} (h : c.encode a = some bytes) :
    c.fromSlice bytes = some a := by
  have hdecode := c.decode_encode [] h
  rw [List.append_nil] at hdecode
  rw [fromSlice, hdecode]

theorem append_inj {c : Codec α} {a b : α} {x y r s : List UInt8} (ha : c.encode a = some x)
    (hb : c.encode b = some y) (h : x ++ r = y ++ s) : a = b ∧ r = s := by
  have hdecode := c.decode_encode r ha
  rw [h, c.decode_encode s hb, Option.some_inj, Prod.mk.injEq] at hdecode
  exact ⟨hdecode.1.symm, hdecode.2.symm⟩

/-- A variant that does not exist. -/
def fail : Codec α := ⟨fun _ => none, fun _ => none, fun _ h => nomatch h⟩

def unit : Codec Unit :=
  ⟨fun _ => some [], fun bytes => some ((), bytes), fun _ h => by
    cases h
    rfl⟩

def byte : Codec UInt8 where
  encode b := some [b]
  decode
    | [] => none
    | b :: rest => some (b, rest)
  decode_encode rest h := by
    cases h
    rfl

def prism (c : Codec β) (build : β → α) (select : α → Option β)
    (build_select : ∀ a b, select a = some b → build b = a) : Codec α where
  encode a := (select a).bind c.encode
  decode bytes := (c.decode bytes).map fun r => (build r.1, r.2)
  decode_encode {a bytes} rest h := by
    obtain ⟨b, hsel, hencode⟩ := Option.bind_eq_some_iff.mp h
    rw [c.decode_encode rest hencode, Option.map_some, build_select a b hsel]

def iso (c : Codec β) (build : β → α) (split : α → β) (build_split : ∀ a, build (split a) = a) :
    Codec α :=
  c.prism build (fun a => some (split a)) fun a b h => by
    cases h
    exact build_split a

def pair (c : Codec α) (d : Codec β) : Codec (α × β) where
  encode a := (c.encode a.1).bind fun front => (d.encode a.2).map fun back => front ++ back
  decode bytes := (c.decode bytes).bind fun r => (d.decode r.2).map fun r' => ((r.1, r'.1), r'.2)
  decode_encode {a bytes} rest h := by
    obtain ⟨front, hfront, hrest⟩ := Option.bind_eq_some_iff.mp h
    obtain ⟨back, hback, rfl⟩ := Option.map_eq_some_iff.mp hrest
    rw [List.append_assoc, c.decode_encode _ hfront, Option.bind_some, d.decode_encode _ hback,
      Option.map_some]

/-! ### Numbers -/

/-- The digits of a number to the base 256, the lowest one first. -/
def digits : ℕ → ℕ → List UInt8
  | 0, _ => []
  | width + 1, n => UInt8.ofNat n :: digits width (n / 256)

def readDigits : ℕ → List UInt8 → Option (ℕ × List UInt8)
  | 0, bytes => some (0, bytes)
  | _ + 1, [] => none
  | width + 1, b :: bytes => (readDigits width bytes).map fun r => (b.toNat + 256 * r.1, r.2)

theorem readDigits_digits {width n : ℕ} (h : n < 256 ^ width) (rest : List UInt8) :
    readDigits width (digits width n ++ rest) = some (n, rest) := by
  induction width generalizing n with
  | zero =>
    rw [Nat.pow_zero, Nat.lt_one_iff] at h
    rw [h]
    rfl
  | succ width ih =>
    have hhigh : n / 256 < 256 ^ width := by
      rw [Nat.pow_succ] at h
      omega
    have hlow : (UInt8.ofNat n).toNat + 256 * (n / 256) = n := by
      rw [UInt8.toNat_ofNat']
      omega
    rw [digits, List.cons_append, readDigits, ih hhigh, Option.map_some, hlow]

theorem length_digits (width n : ℕ) : (digits width n).length = width := by
  induction width generalizing n with
  | zero => rfl
  | succ width ih => rw [digits, List.length_cons, ih]

/-- A number of a fixed width in bytes. -/
def number (width : ℕ) : Codec ℕ where
  encode n := if n < 256 ^ width then some (digits width n) else none
  decode := readDigits width
  decode_encode rest h := by
    split_ifs at h with hn
    cases h
    exact readDigits_digits hn rest

/-! ### Lists and maps -/

def encodeAll (c : Codec α) : List α → Option (List UInt8)
  | [] => some []
  | a :: as => (c.encode a).bind fun front => (encodeAll c as).map fun back => front ++ back

def decodeAll (c : Codec α) : ℕ → List UInt8 → Option (List α × List UInt8)
  | 0, bytes => some ([], bytes)
  | n + 1, bytes => (c.decode bytes).bind fun r =>
      (decodeAll c n r.2).map fun r' => (r.1 :: r'.1, r'.2)

theorem decodeAll_encodeAll (c : Codec α) {as : List α} {bytes : List UInt8}
    (h : encodeAll c as = some bytes) (rest : List UInt8) :
    decodeAll c as.length (bytes ++ rest) = some (as, rest) := by
  induction as generalizing bytes with
  | nil =>
    cases h
    rfl
  | cons a as ih =>
    obtain ⟨front, hfront, hrest⟩ := Option.bind_eq_some_iff.mp h
    obtain ⟨back, hback, rfl⟩ := Option.map_eq_some_iff.mp hrest
    rw [List.length_cons, decodeAll, List.append_assoc, c.decode_encode _ hfront, Option.bind_some,
      ih hback, Option.map_some]

def list (c : Codec α) : Codec (List α) where
  encode as := ((number 4).encode as.length).bind fun front =>
    (encodeAll c as).map fun back => front ++ back
  decode bytes := ((number 4).decode bytes).bind fun r => decodeAll c r.1 r.2
  decode_encode {as bytes} rest h := by
    obtain ⟨front, hfront, hrest⟩ := Option.bind_eq_some_iff.mp h
    obtain ⟨back, hback, rfl⟩ := Option.map_eq_some_iff.mp hrest
    rw [List.append_assoc, (number 4).decode_encode _ hfront, Option.bind_some,
      decodeAll_encodeAll c hback]

def bytes : Codec (List UInt8) := list byte

def string : Codec ByteString := bytes.iso ByteString.mk ByteString.bytes fun _ => rfl

def map [LinearOrder K] (k : Codec K) (v : Codec V) : Codec (BTreeMap K V) :=
  (list (k.pair v)).iso (fun entries => Std.ExtTreeMap.ofList entries compare)
    Std.ExtTreeMap.toList ofList_toList

def set [LinearOrder K] (k : Codec K) : Codec (BTreeSet K) :=
  (list k).iso (fun keys => Std.ExtTreeSet.ofList keys compare) Std.ExtTreeSet.toList fun s => by
    apply Std.ExtTreeSet.ext_mem
    simp

def fixed (n : ℕ) : Codec { bytes : List UInt8 // bytes.length = n } where
  encode a := some a.1
  decode bytes :=
    if h : (bytes.take n).length = n then some (⟨bytes.take n, h⟩, bytes.drop n) else none
  decode_encode {a bytes} rest h := by
    cases h
    obtain ⟨bytes, rfl⟩ := a
    simp

/-! ### Variants -/

def tagged (tag : α → UInt8) (variant : UInt8 → Codec α) : Codec α where
  encode a := ((variant (tag a)).encode a).map fun bytes => tag a :: bytes
  decode
    | [] => none
    | t :: bytes => (variant t).decode bytes
  decode_encode {a bytes} rest h := by
    obtain ⟨bytes, hbytes, rfl⟩ := Option.map_eq_some_iff.mp h
    exact (variant (tag a)).decode_encode rest hbytes

def option (c : Codec α) : Codec (Option α) :=
  tagged (fun a => if a.isSome then 1 else 0) fun
    | 0 => unit.prism (fun _ => none) (fun a => if a.isNone then some () else none) (by
        rintro (_ | a) b h
        · rfl
        · cases h)
    | 1 => c.prism some id fun _ _ h => h.symm
    | _ => fail

end Codec

/-! ### Chunks -/

def cut (n : ℕ) : ℕ → List α → List (List α)
  | 0, _ => []
  | _ + 1, [] => []
  | count + 1, a :: as => (a :: as).take n :: cut n count ((a :: as).drop n)

def chunks (n : ℕ) (as : List α) : List (List α) := cut n as.length as

theorem flatten_chunks {n : ℕ} (hn : 0 < n) (as : List α) : (chunks n as).flatten = as := by
  have hcut : ∀ (count : ℕ) (as : List α), as.length ≤ count → (cut n count as).flatten = as := by
    intro count
    induction count with
    | zero =>
      intro as hle
      rw [List.length_eq_zero_iff.mp (Nat.le_zero.mp hle)]
      rfl
    | succ count ih =>
      intro as hle
      cases as with
      | nil => rfl
      | cons a as =>
        have hshorter : ((a :: as).drop n).length ≤ count := by
          rw [List.length_drop]
          omega
        rw [cut, List.flatten_cons, ih _ hshorter, List.take_append_drop]
  exact hcut as.length as le_rfl

theorem length_le_of_mem_chunks {n : ℕ} {as chunk : List α} (h : chunk ∈ chunks n as) :
    chunk.length ≤ n := by
  have hcut : ∀ (count : ℕ) (as : List α), chunk ∈ cut n count as → chunk.length ≤ n := by
    intro count
    induction count with
    | zero => intro as h; cases h
    | succ count ih =>
      intro as h
      cases as with
      | nil => cases h
      | cons a as =>
        rw [cut, List.mem_cons] at h
        rcases h with rfl | h
        · exact List.length_take_le ..
        · exact ih _ h
  exact hcut _ _ h

end Blossom.ByteCodec
