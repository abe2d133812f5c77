import Mathlib.Data.String.Basic
import Mathlib.Tactic.SplitIfs
import MetricDepot.Bytes
/-!
# Byte order — texts and their bytes are in the same order

    Texts are ordered by their code points, from the front.  Their UTF-8 bytes are in the same
    order: a code point is cut into digits of six bits, the most significant first, and the
    longer forms begin with the greater bytes (`utf8EncodeChar_append_lt`).
-/

namespace MetricDepot.Bytes

/-- A number comes before another by its upper digits, or by the last if those are equal. -/
theorem lt_iff_digits (v w : Nat) : v < w ↔ v / 64 < w / 64 ∨ v / 64 = w / 64 ∧ v % 64 < w % 64 := by
  omega

/-- A lesser character has lesser bytes, whatever comes behind. -/
theorem utf8EncodeChar_append_lt {c d : Char} (h : c < d) (l m : Bytes) :
    String.utf8EncodeChar c ++ l < String.utf8EncodeChar d ++ m := by
  have hlt : c.val.toNat < d.val.toNat := h
  have hbound : d.val.toNat < 0x110000 := by
    rcases d.valid with hsmall | ⟨-, hlarge⟩
    · exact Nat.lt_trans hsmall (by decide)
    · exact hlarge
  rw [String.utf8EncodeChar, String.utf8EncodeChar]
  generalize c.val.toNat = v at hlt
  generalize d.val.toNat = w at hlt hbound
  -- forms of equal length differ at the first digit that does
  have hdigits := hlt
  rw [lt_iff_digits v w, lt_iff_digits (v / 64), lt_iff_digits (v / 64 / 64)] at hdigits
  have hthird (n : Nat) : n / 4096 = n / 64 / 64 := by omega
  have hfourth (n : Nat) : n / 262144 = n / 64 / 64 / 64 := by omega
  split_ifs <;>
    simp (disch := omega) only [List.cons_append, List.nil_append, List.cons_lt_cons_iff,
      UInt8.lt_iff_toNat_lt, ← UInt8.toNat_inj, UInt8.toNat_ofNat', hthird, hfourth,
      Nat.mod_eq_of_lt] <;>
    omega

theorem flatMap_utf8EncodeChar_lt {l m : List Char} (h : l < m) :
    l.flatMap String.utf8EncodeChar < m.flatMap String.utf8EncodeChar := by
  induction l generalizing m with
  | nil =>
    obtain _ | ⟨d, m⟩ := m
    · exact absurd h (List.lt_irrefl [])
    · rw [List.flatMap_nil, List.flatMap_cons]
      obtain ⟨b, rest, hd⟩ := List.exists_cons_of_ne_nil (String.utf8EncodeChar_ne_nil (c := d))
      rw [hd]
      exact List.nil_lt_cons _ _
  | cons c l ih =>
    obtain _ | ⟨d, m⟩ := m
    · exact absurd h (List.not_lt_nil _)
    · rw [List.flatMap_cons, List.flatMap_cons]
      rcases List.cons_lt_cons_iff.mp h with hlt | ⟨rfl, hrest⟩
      · exact utf8EncodeChar_append_lt hlt _ _
      · exact List.append_left_lt (ih hrest)

theorem ofText_eq_flatMap (text : String) : ofText text = text.toList.flatMap String.utf8EncodeChar := by
  rw [ofText, ← String.utf8Encode_toList, List.utf8Encode, List.toList_data_toByteArray]

/-- **Texts are in the order of their bytes.** -/
theorem ofText_lt_ofText (a b : String) : ofText a < ofText b ↔ a < b := by
  have hmono : ∀ {a b : String}, a < b → ofText a < ofText b := by
    intro a b h
    rw [ofText_eq_flatMap, ofText_eq_flatMap]
    exact flatMap_utf8EncodeChar_lt (String.lt_iff_toList_lt.mp h)
  constructor
  · intro h
    rcases lt_trichotomy a b with hlt | rfl | hgt
    · exact hlt
    · exact absurd h (List.lt_irrefl _)
    · exact absurd h (List.lt_asymm (hmono hgt))
  · exact hmono

end MetricDepot.Bytes
