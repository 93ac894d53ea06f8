import Mathlib.Data.List.Basic
import Michelson.Binary.Reader

/-!
# Reading back what was written

What a reader takes from a byte string that starts with the written form of something: the thing
itself, with the bytes after it left over and the offset moved past it.

## Main definitions

* `Reader.Takes`: a reader takes a value from the front, whatever follows

## Main results

* `spell_big4`: four bytes spell every length that fits
* `takes_sized`, `takes_text`: bytes and texts are read back from their sized form
-/

namespace Michelson.Binary

@[simp] theorem length_big4 (n : Nat) : (big4 n).length = 4 := rfl

/-- Four bytes spell every length that fits into them. -/
theorem spell_big4 {n : Nat} (h : n < 0x100000000) : spell (big4 n) = n := by
  simp only [spell, big4, List.foldl_cons, List.foldl_nil, UInt8.toNat_ofNat']
  omega

namespace Reader

variable {α β : Type}

/-- **A reader takes a value** from the front of the input if that starts with the given bytes,
whatever their offset and whatever follows them. -/
def Takes (reader : Reader α) (bytes : List UInt8) (x : α) : Prop :=
  ∀ (offset : Nat) (rest : List UInt8),
    reader ⟨offset, bytes ++ rest⟩ = .ok (x, ⟨offset + bytes.length, rest⟩)

theorem bind_of_ok {r : Reader α} {f : α → Reader β} {c c' : Cursor} {x : α}
    (h : r c = .ok (x, c')) : (r >>= f) c = f x c' := by
  show (r c >>= fun p => f p.1 p.2) = f x c'
  rw [h]
  rfl

theorem bind_of_error {r : Reader α} {f : α → Reader β} {c : Cursor} {e : DecodeError}
    (h : r c = .error e) : (r >>= f) c = .error e := by
  show (r c >>= fun p => f p.1 p.2) = .error e
  rw [h]
  rfl

theorem bind_congr_left {r r' : Reader α} {f : α → Reader β} {c : Cursor} (h : r c = r' c) :
    (r >>= f) c = (r' >>= f) c := by
  show (r c >>= fun p => f p.1 p.2) = (r' c >>= fun p => f p.1 p.2)
  rw [h]

theorem get_apply (c : Cursor) : (get : Reader Cursor) c = .ok (c, c) := rfl

theorem offset_apply (c : Cursor) : offset c = .ok (c.offset, c) := rfl

/-- A reader that takes nothing. -/
theorem takes_pure (x : α) : Takes (pure x) [] x := fun _ _ => rfl

/-- Readers follow one another as their bytes do. -/
theorem Takes.bind {r : Reader α} {f : α → Reader β} {bytes more : List UInt8} {x : α} {y : β}
    (hr : r.Takes bytes x) (hf : (f x).Takes more y) : (r >>= f).Takes (bytes ++ more) y := by
  intro offset rest
  rw [List.append_assoc, bind_of_ok (hr offset (more ++ rest)), hf, List.length_append,
    Nat.add_assoc]

theorem Takes.map {r : Reader α} {bytes : List UInt8} {x : α} (hr : r.Takes bytes x)
    (f : α → β) : Takes (do return f (← r)) bytes (f x) := by
  have h : Takes (do return f (← r)) (bytes ++ []) (f x) := hr.bind (takes_pure (f x))
  rwa [List.append_nil] at h

theorem takes_byte (b : UInt8) : byte.Takes [b] b := fun _ _ => rfl

theorem takes_take (bytes : List UInt8) : (take bytes.length).Takes bytes bytes := by
  intro offset rest
  simp [take]

theorem takes_sized {bytes : List UInt8} (h : bytes.length < 0x100000000) :
    sized.Takes (Binary.sized bytes) bytes := by
  refine (takes_take (big4 bytes.length)).bind ?_
  rw [spell_big4 h]
  exact takes_take bytes

theorem takes_text {s : String} (h : (Text.utf8 s).length < 0x100000000) :
    text.Takes (Binary.sized (Text.utf8 s)) s := by
  intro start rest
  have taken := takes_sized h start rest
  rw [text, bind_of_ok (offset_apply _), bind_of_ok taken]
  simp only [Text.ofUtf8?_utf8]
  rfl

end Reader

end Michelson.Binary
