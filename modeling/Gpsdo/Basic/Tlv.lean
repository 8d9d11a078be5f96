import Gpsdo.Basic.CObject

set_option autoImplicit false

/-! # Areas of options

An area of options is a sequence of pad bytes and of options, each with a code, the length of its
value and its value, up to an end mark. What follows the end mark has no meaning.
-/

namespace Gpsdo.Tlv

abbrev Octet := BitVec 8

inductive Item
  | pad
  | option (code : Octet) (value : List Octet)
  deriving DecidableEq, Repr

/-- The end of the options. -/
def END : Octet := 0xFF

def Item.encode : Item → List Octet
  | pad => [0]
  | option code value => code :: BitVec.ofNat 8 value.length :: value

/-- The code is no pad byte and no end mark, and the length fits. -/
def Item.WellFormed : Item → Prop
  | pad => True
  | option code value => code ≠ 0 ∧ code ≠ END ∧ value.length < 256

instance (item : Item) : Decidable item.WellFormed :=
  match item with
  | .pad => isTrue trivial
  | .option _ _ => inferInstanceAs (Decidable (_ ∧ _ ∧ _))

def encode (items : List Item) : List Octet := items.flatMap Item.encode

/-- The values of the options with a code, in their order. -/
def values (code : Octet) : List Item → List (List Octet)
  | [] => []
  | .pad :: items => values code items
  | .option c value :: items => if c = code then value :: values code items else values code items

/-- The last value of a code that has a valid length. -/
def last (code : Octet) (valid : ℕ → Bool) (items : List Item) : Option (List Octet) :=
  ((values code items).filter (valid ·.length)).getLast?

variable {items items' : List Item} {code : Octet} {valid : ℕ → Bool}

@[simp] theorem encode_cons (item : Item) (items : List Item) :
    encode (item :: items) = item.encode ++ encode items := List.flatMap_cons

theorem values_option (code c : Octet) (value : List Octet) (items : List Item) :
    values code (.option c value :: items) =
      if c = code then value :: values code items else values code items := rfl

theorem mem_values_cons {value : List Octet} (item : Item) (h : value ∈ values code items) :
    value ∈ values code (item :: items) := by
  cases item with
  | pad => exact h
  | option c v =>
      rw [values_option]
      split
      · exact List.mem_cons_of_mem _ h
      · exact h

/-- A later option counts before an earlier one. -/
theorem last_option {c : Octet} {value : List Octet} :
    last code valid (.option c value :: items) =
      (last code valid items).or
        (if c = code ∧ valid value.length = true then some value else none) := by
  unfold last
  rw [values_option]
  by_cases hc : c = code
  · rw [if_pos hc, List.filter_cons]
    by_cases hv : valid value.length = true
    · rw [if_pos hv, if_pos ⟨hc, hv⟩, List.getLast?_cons]
      cases ((values code items).filter (valid ·.length)).getLast? with
      | none => rfl
      | some v => rfl
    · rw [if_neg hv, if_neg fun h => hv h.2, Option.or_none]
  · rw [if_neg hc, if_neg fun h => hc h.1, Option.or_none]

theorem last_singleton {c : Octet} {value : List Octet} :
    last code valid [.option c value] =
      if c = code ∧ valid value.length = true then some value else none := last_option

theorem last_cons (item : Item) :
    last code valid (item :: items) = (last code valid items).or (last code valid [item]) := by
  cases item with
  | pad => exact (Option.or_none).symm
  | option c value => rw [last_option, last_singleton]

/-- **An area has one reading.** -/
theorem encode_inj (hitems : ∀ item ∈ items, item.WellFormed)
    (hitems' : ∀ item ∈ items', item.WellFormed) {rest rest' : List Octet}
    (h : encode items ++ END :: rest = encode items' ++ END :: rest') : items = items' := by
  induction items generalizing items' with
  | nil =>
      cases items' with
      | nil => rfl
      | cons item' items' =>
          have hhead := (hitems' item' List.mem_cons_self)
          cases item' with
          | pad => simp [encode, Item.encode, END] at h
          | option code value =>
              have hcode : END = code := by
                simpa [encode, Item.encode] using congrArg List.head? h
              exact absurd hcode.symm hhead.2.1
  | cons item items ih =>
      have hwf := hitems item List.mem_cons_self
      have hwfs : ∀ item ∈ items, item.WellFormed := fun x hx =>
        hitems x (List.mem_cons_of_mem _ hx)
      cases items' with
      | nil =>
          cases item with
          | pad => simp [encode, Item.encode, END] at h
          | option code value =>
              have hcode : code = END := by
                simpa [encode, Item.encode] using congrArg List.head? h
              exact absurd hcode hwf.2.1
      | cons item' items' =>
          have hwf' := hitems' item' List.mem_cons_self
          have hwfs' : ∀ item ∈ items', item.WellFormed := fun x hx =>
            hitems' x (List.mem_cons_of_mem _ hx)
          rw [encode_cons, encode_cons, List.append_assoc, List.append_assoc] at h
          cases item with
          | pad =>
              cases item' with
              | pad => rw [ih hwfs hwfs' (List.cons.inj h).2]
              | option code value => exact absurd (List.cons.inj h).1.symm hwf'.1
          | option code value =>
              cases item' with
              | pad => exact absurd (List.cons.inj h).1 hwf.1
              | option code' value' =>
                  obtain ⟨hcode, htail⟩ := List.cons.inj h
                  obtain ⟨hlen, htail⟩ := List.cons.inj htail
                  have hlength : value.length = value'.length := by
                    have hnat := congrArg BitVec.toNat hlen
                    rwa [BitVec.toNat_ofNat, BitVec.toNat_ofNat, Nat.mod_eq_of_lt hwf.2.2,
                      Nat.mod_eq_of_lt hwf'.2.2] at hnat
                  obtain ⟨hvalue, hrest⟩ := List.append_inj htail hlength
                  rw [hcode, hvalue, ih hwfs hwfs' hrest]

end Gpsdo.Tlv
