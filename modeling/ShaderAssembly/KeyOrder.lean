/-!
# Orders of keys

* `KeyOrder`: strict orders that compare any two different keys.

Numbers are ordered by size, and texts and lists by the first place where they differ.
-/

namespace ShaderAssembly

/-- A strict order that compares any two different keys. -/
class KeyOrder (κ : Type) [LT κ] : Prop where
  irrefl (a : κ) : ¬ a < a
  trans {a b c : κ} : a < b → b < c → a < c
  connected {a b : κ} : ¬ a < b → a ≠ b → b < a

namespace KeyOrder

theorem ne_of_lt {κ : Type} [LT κ] [KeyOrder κ] {a b : κ} (h : a < b) : a ≠ b := by
  rintro rfl
  exact irrefl a h

theorem lt_asymm {κ : Type} [LT κ] [KeyOrder κ] {a b : κ} (h : a < b) : ¬ b < a :=
  fun h' => irrefl a (trans h h')

theorem not_lt_trans {κ : Type} [LT κ] [KeyOrder κ] {a b c : κ} (h : ¬ b < a) (h' : ¬ c < b) :
    ¬ c < a := by
  intro hca
  by_cases he : a = b
  · exact h' (he ▸ hca)
  · exact h' (trans hca (connected h (Ne.symm he)))

instance : KeyOrder Nat where
  irrefl := Nat.lt_irrefl
  trans := Nat.lt_trans
  connected h hne := by omega

instance : KeyOrder UInt8 where
  irrefl a := by simp
  trans := UInt8.lt_trans
  connected {a b} h hne := by
    rw [UInt8.lt_iff_toNat_lt] at h ⊢
    have : a.toNat ≠ b.toNat := fun he => hne (UInt8.toNat_inj.1 he)
    omega

instance : KeyOrder Char where
  irrefl a := Nat.lt_irrefl a.val.toNat
  trans h h' := Nat.lt_trans h h'
  connected {a b} h hne := by
    have hn : ¬ a.val.toNat < b.val.toNat := h
    have : a.val.toNat ≠ b.val.toNat := fun he => hne (Char.ext (UInt32.toNat_inj.1 he))
    show b.val.toNat < a.val.toNat
    omega

section Lists

variable {α : Type} [LT α] [KeyOrder α]

theorem list_irrefl : ∀ as : List α, ¬ as < as
  | [], h => nomatch h
  | a :: as, h => by
    cases h with
    | rel h => exact irrefl a h
    | cons h => exact list_irrefl as h

theorem list_trans : ∀ {as bs cs : List α}, as < bs → bs < cs → as < cs
  | _, _, _, .nil, .rel _ => .nil
  | _, _, _, .nil, .cons _ => .nil
  | _, _, _, .rel h, .rel h' => .rel (trans h h')
  | _, _, _, .rel h, .cons _ => .rel h
  | _, _, _, .cons _, .rel h' => .rel h'
  | _, _, _, .cons h, .cons h' => .cons (list_trans h h')

theorem list_connected : ∀ {as bs : List α}, ¬ as < bs → as ≠ bs → bs < as
  | [], [], _, hne => absurd rfl hne
  | [], _ :: _, h, _ => absurd .nil h
  | _ :: _, [], _, _ => .nil
  | a :: as, b :: bs, h, hne => by
    by_cases hab : a = b
    · subst hab
      exact .cons (list_connected (fun h' => h (.cons h')) fun he => hne (he ▸ rfl))
    · exact .rel (connected (fun h' => h (.rel h')) hab)

instance : KeyOrder (List α) where
  irrefl := list_irrefl
  trans := list_trans
  connected := list_connected

end Lists

instance : KeyOrder String where
  irrefl s := irrefl s.toList
  trans {_ b _} h h' := trans (b := b.toList) h h'
  connected {a _} h hne :=
    connected (a := a.toList) h fun he => hne (String.toList_injective he)

end KeyOrder

end ShaderAssembly
