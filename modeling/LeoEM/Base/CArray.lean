/-
# `Base.CArray` — arrays of C, and the strings in them

A `CArray n` is a `char a[n]`.  A store outside of it has no result, it is `OutOfBounds`;
so is a read that runs past the end.  The C string in an array is what stands before its
first NUL; `strcpy` copies it byte by byte, and what the target held behind it stays there
(`strcpyLoop_eq`) but is not part of the target's string (`strcpy_spec`).
-/
import Mathlib.Data.List.TakeWhile

/-- `char a[n]`. -/
structure CArray (n : Nat) where
  bytes : List UInt8
  size : bytes.length = n

/-- An access at this index is not inside its array. -/
structure OutOfBounds where
  index : Int
deriving DecidableEq

namespace CArray

variable {m n : Nat}

theorem replicate_size (n : Nat) (c : UInt8) : (List.replicate n c).length = n :=
  List.length_replicate

theorem set_size (a : CArray n) (i : Nat) (c : UInt8) : (a.bytes.set i c).length = n := by
  rw [List.length_set, a.size]

theorem overwrite_size (a : CArray n) (bytes : List UInt8) :
    (bytes.take n ++ a.bytes.drop bytes.length).length = n := by
  rw [List.length_append, List.length_take, List.length_drop, a.size]
  omega

/-- An array of zeros. -/
def zeros (n : Nat) : CArray n := ⟨List.replicate n 0, replicate_size n 0⟩

def set (a : CArray n) (i : Nat) (c : UInt8) : CArray n := ⟨a.bytes.set i c, a.set_size i c⟩

/-- As many of `bytes` as the array holds, over its front. -/
def overwrite (a : CArray n) (bytes : List UInt8) : CArray n :=
  ⟨bytes.take n ++ a.bytes.drop bytes.length, a.overwrite_size bytes⟩

/-- `a[i] = c`. -/
def store (a : CArray n) (i : Int) (c : UInt8) : Except OutOfBounds (CArray n) :=
  if 0 ≤ i ∧ i < n then .ok (a.set i.toNat c) else .error ⟨i⟩

/-- The C string in the array, if it has a NUL. -/
def cString (a : CArray n) : Option (List UInt8) :=
  if 0 ∈ a.bytes then some (a.bytes.takeWhile (· ≠ 0)) else none

/-- Reading the C string, as `printf("%s")` does. -/
def readString (a : CArray n) : Except OutOfBounds (List UInt8) :=
  match a.cString with
  | some s => .ok s
  | none => .error ⟨n⟩

/-- `while ((dst[i] = *src++)) i++`, with the bytes of the source that are still to come. -/
def strcpyLoop (dst : CArray m) (i : Nat) : List UInt8 → Except OutOfBounds (CArray m)
  | [] => .error ⟨i⟩
  | c :: src =>
      match dst.store i c with
      | .error e => .error e
      | .ok dst => if c = 0 then .ok dst else strcpyLoop dst (i + 1) src

def strcpy (dst : CArray m) (src : CArray n) : Except OutOfBounds (CArray m) :=
  strcpyLoop dst 0 src.bytes

@[simp] theorem set_bytes (a : CArray n) (i : Nat) (c : UInt8) :
    (a.set i c).bytes = a.bytes.set i c := rfl

@[simp] theorem overwrite_bytes (a : CArray n) (bytes : List UInt8) :
    (a.overwrite bytes).bytes = bytes.take n ++ a.bytes.drop bytes.length := rfl

theorem store_ok (a : CArray n) {i : Nat} (h : i < n) (c : UInt8) :
    a.store i c = .ok (a.set i c) :=
  if_pos ⟨Int.natCast_nonneg i, Int.ofNat_lt.mpr h⟩

theorem store_error (a : CArray n) {i : Int} (h : i < 0 ∨ n ≤ i) (c : UInt8) :
    a.store i c = .error ⟨i⟩ :=
  if_neg (by omega)

/-! ## Strings -/

theorem takeWhile_of_not_mem {s : List UInt8} (h : 0 ∉ s) : s.takeWhile (· ≠ 0) = s := by
  rw [List.takeWhile_eq_self_iff]
  intro c hc
  exact decide_eq_true fun h₀ => h (h₀ ▸ hc)

/-- A NUL ends the string, unless an earlier one does. -/
theorem cString_of_bytes {a : CArray n} {bytes rest : List UInt8}
    (h : a.bytes = bytes ++ 0 :: rest) : a.cString = some (bytes.takeWhile (· ≠ 0)) := by
  have hmem : 0 ∈ a.bytes := by
    rw [h]
    exact List.mem_append_right _ List.mem_cons_self
  rw [cString, if_pos hmem, h, List.takeWhile_append]
  split
  next hlen =>
    rw [List.takeWhile_cons_of_neg (by simp), List.append_nil,
      (List.takeWhile_prefix _).eq_of_length hlen]
  next => rfl

theorem cString_split {a : CArray n} {s : List UInt8} (h : a.cString = some s) :
    0 ∉ s ∧ ∃ rest, a.bytes = s ++ 0 :: rest := by
  by_cases hmem : 0 ∈ a.bytes
  · obtain ⟨front, rest, hbytes, hfront⟩ := List.eq_append_cons_of_mem hmem
    rw [cString_of_bytes hbytes, takeWhile_of_not_mem hfront, Option.some.injEq] at h
    rw [← h]
    exact ⟨hfront, rest, hbytes⟩
  · rw [cString, if_neg hmem] at h
    cases h

theorem readString_of_cString {a : CArray n} {s : List UInt8} (h : a.cString = some s) :
    a.readString = .ok s := by
  rw [readString, h]

/-- Behind a string that has been put in front, the array is as it was. -/
theorem terminated_bytes (a : CArray n) {bytes : List UInt8} (h : bytes.length < n) :
    ((a.overwrite bytes).set bytes.length 0).bytes =
      bytes ++ 0 :: a.bytes.drop (bytes.length + 1) := by
  have hlen : bytes.length < a.bytes.length := by rwa [a.size]
  rw [set_bytes, overwrite_bytes, List.take_of_length_le (Nat.le_of_lt h),
    List.drop_eq_getElem_cons hlen, List.set_append_right _ _ (Nat.le_refl _), Nat.sub_self,
    List.set_cons_zero]

/-- What `strcpy` has done when it comes to the end of the string. -/
theorem strcpyLoop_eq (rest : List UInt8) : ∀ (s : List UInt8) (dst : CArray m) (i : Nat),
    0 ∉ s → i + s.length < m → ∃ dst', strcpyLoop dst i (s ++ 0 :: rest) = .ok dst' ∧
      dst'.bytes = dst.bytes.take i ++ (s ++ 0 :: dst.bytes.drop (i + s.length + 1)) := by
  intro s
  induction s with
  | nil =>
      intro dst i _ hi
      rw [List.length_nil, Nat.add_zero] at hi
      refine ⟨dst.set i 0, ?_, ?_⟩
      · rw [List.nil_append, strcpyLoop, store_ok dst hi]
        rfl
      · rw [set_bytes, List.set_eq_take_append_cons_drop, if_pos (by rwa [dst.size])]
        rfl
  | cons c s ih =>
      intro dst i hs hi
      rw [List.mem_cons, not_or] at hs
      rw [List.length_cons] at hi
      have hlen : i < dst.bytes.length := by
        rw [dst.size]
        omega
      obtain ⟨dst', hloop, hbytes⟩ := ih (dst.set i c) (i + 1) hs.2 (by omega)
      refine ⟨dst', ?_, ?_⟩
      · rw [List.cons_append, strcpyLoop, store_ok dst (by omega)]
        dsimp only
        rw [if_neg (Ne.symm hs.1), hloop]
      · have htake : (dst.bytes.set i c).take (i + 1) = dst.bytes.take i ++ [c] := by
          rw [List.take_add_one, List.take_set_of_le (Nat.le_refl i), List.getElem?_set_self hlen]
          rfl
        have hlast : i + 1 + s.length + 1 = i + (c :: s).length + 1 := by
          rw [List.length_cons]
          omega
        rw [hbytes, set_bytes, htake, List.drop_set_of_lt (by omega), List.append_assoc, hlast]
        rfl

/-- **`strcpy` copies the string**, if there is room for it and its NUL. -/
theorem strcpy_spec (dst : CArray m) {src : CArray n} {s : List UInt8}
    (hs : src.cString = some s) (hm : s.length < m) :
    ∃ dst', dst.strcpy src = .ok dst' ∧ dst'.cString = some s := by
  obtain ⟨hzero, rest, hsrc⟩ := cString_split hs
  obtain ⟨dst', hloop, hbytes⟩ := strcpyLoop_eq rest s dst 0 hzero (by omega)
  refine ⟨dst', by rw [strcpy, hsrc, hloop], ?_⟩
  rw [List.take_zero, List.nil_append] at hbytes
  rw [cString_of_bytes hbytes, takeWhile_of_not_mem hzero]

/-- A shorter string over a longer one. -/
example : (strcpy (⟨[49, 50, 51, 0], rfl⟩ : CArray 4) (⟨[48, 0], rfl⟩ : CArray 2)).map bytes =
    .ok [48, 0, 51, 0] := rfl

end CArray
