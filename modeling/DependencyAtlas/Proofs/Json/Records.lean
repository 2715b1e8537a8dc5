import DependencyAtlas.Decoding.Json
import Mathlib.Data.List.Forall2

/-!
# Fields of records

A record decoder fills a slot for each field. The slot is filled at most once, by the one value that
stands under the keys of the field or at its place in a list; so what a decoder accepts is told by
the values under the keys, whatever their order and whatever else there is.
-/

namespace DependencyAtlas.Decoding

variable {α β ε δ : Type} {decode : Json → Except Mismatch α} {before after : Option α} {a b : α}
  {v : Json} {vs ws items rest : List Json} {keys : List String} {f : String × Json}
  {fields fields' : List (String × Json)} {name : String} {missing : α} {reads : Json → α → Prop}

theorem bind_eq_ok_iff {x : Except ε α} {k : α → Except ε β} {b : β} :
    (x >>= k) = .ok b ↔ ∃ a, x = .ok a ∧ k a = .ok b := by
  cases x with
  | error e => simp [bind, Except.bind]
  | ok a => simp [bind, Except.bind]

/-- What becomes of a record when one of its slots is set. -/
theorem exists_set_iff {x : Except ε α} {set : α → δ} {p : δ → Prop} :
    (∃ d, (x >>= fun a => pure (set a)) = .ok d ∧ p d) ↔ ∃ a, x = .ok a ∧ p (set a) := by
  cases x with
  | error e => simp [bind, Except.bind]
  | ok a => simp [bind, Except.bind, pure, Except.pure]

theorem pure_eq_ok_iff {a b : α} : (pure a : Except ε α) = .ok b ↔ a = b := by
  simp [pure, Except.pure]

theorem map_eq_ok_iff {x : Except ε α} {k : α → β} {b : β} :
    x.map k = .ok b ↔ ∃ a, x = .ok a ∧ k a = b := by
  cases x with
  | error e => simp [Except.map]
  | ok a => simp [Except.map]

theorem text_eq_ok_iff (v : Json) (s : String) : text v = .ok s ↔ v = .text s := by
  cases v with
  | text t => simp [text, Json.shape, Shape.toText]
  | _ => simp [text, Json.shape, Shape.toText]

inductive IsLabel : Json → Option String → Prop
  | null : IsLabel .null none
  | text (s : String) : IsLabel (.text s) (some s)

theorem optionalText_eq_ok_iff (v : Json) (o : Option String) : optionalText v = .ok o ↔ IsLabel v o := by
  constructor
  · intro h
    cases v with
    | null =>
      cases h
      exact .null
    | text s =>
      cases h
      exact .text s
    | _ => cases h
  · rintro (_ | s)
    · rfl
    · rfl

theorem mapM_eq_ok_iff {f : β → Except ε α} {xs : List β} {ys : List α} :
    xs.mapM f = .ok ys ↔ List.Forall₂ (fun x y => f x = .ok y) xs ys := by
  induction xs generalizing ys with
  | nil =>
    rw [List.mapM_nil, List.forall₂_nil_left_iff]
    exact ⟨fun h => (Except.ok.inj h).symm, fun h => congrArg Except.ok h.symm⟩
  | cons x xs ih =>
    rw [List.mapM_cons, bind_eq_ok_iff, List.forall₂_cons_left_iff]
    simp only [bind_eq_ok_iff, ih]
    constructor
    · rintro ⟨y, hy, zs, hzs, h⟩
      exact ⟨y, zs, hy, hzs, (Except.ok.inj h).symm⟩
    · rintro ⟨y, zs, hy, hzs, rfl⟩
      exact ⟨y, hy, zs, hzs, rfl⟩

theorem mapM_map_eq_ok {encode : α → β} {decode : β → Except ε α}
    (h : ∀ a, decode (encode a) = .ok a) (xs : List α) : (xs.map encode).mapM decode = .ok xs := by
  rw [mapM_eq_ok_iff, List.forall₂_map_left_iff, List.forall₂_same]
  exact fun a _ => h a

def IsList (reads : Json → α → Prop) (v : Json) (xs : List α) : Prop :=
  ∃ items, v = .list items ∧ List.Forall₂ reads items xs

theorem listOf_eq_ok_iff (h : ∀ v a, decode v = .ok a ↔ reads v a) (v : Json) (xs : List α) :
    listOf decode v = .ok xs ↔ IsList reads v xs := by
  cases v with
  | list items => simp [listOf, IsList, mapM_eq_ok_iff, h]
  | _ => simp [listOf, IsList]

/-- The values of the fields under some keys, in their order. -/
def under (keys : List String) (fields : List (String × Json)) : List Json :=
  (fields.filter fun f => keys.contains f.1).map Prod.snd

theorem under_nil (keys : List String) : under keys [] = [] :=
  rfl

theorem under_cons (keys : List String) (key : String) (v : Json) (fields : List (String × Json)) :
    under keys ((key, v) :: fields) =
      if key ∈ keys then v :: under keys fields else under keys fields := by
  by_cases h : key ∈ keys
  · simp [under, h]
  · simp [under, h]

theorem under_perm (h : fields.Perm fields') (keys : List String) :
    (under keys fields).Perm (under keys fields') :=
  (h.filter _).map _

/-- What a slot becomes when it is filled with values one after the other. -/
inductive Fills (decode : Json → Except Mismatch α) : Option α → List Json → Option α → Prop
  | nothing (slot : Option α) : Fills decode slot [] slot
  | value {v : Json} {a : α} (h : decode v = .ok a) : Fills decode none [v] (some a)

theorem fills_nil_iff : Fills decode before [] after ↔ before = after := by
  constructor
  · rintro (_ | _)
    rfl
  · rintro rfl
    exact .nothing _

theorem fill_eq_ok_iff : fill name before decode v = .ok after ↔
    ∃ a, before = none ∧ decode v = .ok a ∧ some a = after := by
  cases before with
  | some a => simp [fill]
  | none => simp [fill, map_eq_ok_iff]

theorem fills_cons_iff : Fills decode before (v :: vs) after ↔
    ∃ a, before = none ∧ decode v = .ok a ∧ Fills decode (some a) vs after := by
  constructor
  · rintro (_ | h)
    exact ⟨_, rfl, h, .nothing _⟩
  · rintro ⟨a, rfl, hv, _ | _⟩
    exact .value hv

/-- What the visits of all fields do, from what the visit of one field does. -/
theorem visitFields_eq_ok_iff {visit : δ → String → Json → Except Mismatch δ}
    {Filled : δ → List (String × Json) → δ → Prop} (hnil : ∀ d d', Filled d [] d' ↔ d = d')
    (hcons : ∀ d f fields d', Filled d (f :: fields) d' ↔
      ∃ mid, visit d f.1 f.2 = .ok mid ∧ Filled mid fields d') {d d' : δ} :
    visitFields visit d fields = .ok d' ↔ Filled d fields d' := by
  induction fields generalizing d with
  | nil =>
    rw [hnil]
    exact ⟨fun h => Except.ok.inj h, fun h => congrArg Except.ok h⟩
  | cons f fields ih =>
    simp only [visitFields, List.foldlM_cons, bind_eq_ok_iff, hcons]
    exact exists_congr fun mid => and_congr_right fun _ => ih

/-- A field with a default: it is missing, or there is one value for it. -/
inductive Optionally (missing : α) (reads : Json → α → Prop) : List Json → α → Prop
  | missing : Optionally missing reads [] missing
  | given {v : Json} {a : α} (h : reads v a) : Optionally missing reads [v] a

theorem Optionally.perm (h : vs.Perm ws) (hv : Optionally missing reads vs a) :
    Optionally missing reads ws a := by
  cases hv with
  | missing =>
    rw [List.nil_perm.mp h]
    exact .missing
  | given hv =>
    rw [← List.singleton_perm.mp h]
    exact .given hv

theorem exists_fills_getD_iff (h : ∀ v a, decode v = .ok a ↔ reads v a) :
    (∃ slot, Fills decode none vs slot ∧ slot.getD missing = a) ↔
      Optionally missing reads vs a := by
  constructor
  · rintro ⟨slot, _ | hv, rfl⟩
    · exact .missing
    · exact .given ((h _ _).mp hv)
  · rintro (_ | hv)
    · exact ⟨none, .nothing _, rfl⟩
    · exact ⟨some a, .value ((h _ _).mpr hv), rfl⟩

theorem exists_fills_require_iff (name : String) (h : ∀ v a, decode v = .ok a ↔ reads v a) :
    (∃ slot, Fills decode none vs slot ∧ require name slot = .ok a) ↔
      ∃ v, vs = [v] ∧ reads v a := by
  constructor
  · rintro ⟨slot, _ | hv, hslot⟩
    · cases hslot
    · cases hslot
      exact ⟨_, rfl, (h _ _).mp hv⟩
  · rintro ⟨v, rfl, hv⟩
    exact ⟨some a, .value ((h _ _).mpr hv), rfl⟩

theorem requireItem_eq_ok_iff {record : String} {size position : Nat} :
    requireItem record size position decode items = .ok (a, rest) ↔
      ∃ v, items = v :: rest ∧ decode v = .ok a := by
  cases items with
  | nil => simp [requireItem]
  | cons v vs => simp [requireItem, map_eq_ok_iff, and_comm]

theorem nextItem_eq_ok_iff {slot : Option α} :
    nextItem decode items = .ok (slot, rest) ↔
      Fills decode none (items.take 1) slot ∧ rest = items.drop 1 := by
  cases items with
  | nil => simp [nextItem, fills_nil_iff, eq_comm]
  | cons v vs =>
    rw [nextItem, map_eq_ok_iff, List.take_succ_cons, List.take_zero, List.drop_one, List.tail_cons]
    constructor
    · rintro ⟨a, hv, heq⟩
      obtain ⟨rfl, rfl⟩ := Prod.mk.inj heq
      exact ⟨.value hv, rfl⟩
    · rintro ⟨_ | hv, rfl⟩
      exact ⟨_, hv, rfl⟩

theorem endOfItems_eq_ok_iff : endOfItems items rest a = .ok b ↔ rest = [] ∧ a = b := by
  cases rest with
  | nil => simp [endOfItems]
  | cons v vs => simp [endOfItems]

theorem fills_last_iff {slot : Option α} :
    Fills decode none (items.take 1) slot ∧ items.drop 1 = [] ↔ Fills decode none items slot := by
  cases items with
  | nil => simp
  | cons v vs =>
    constructor
    · rintro ⟨h, hrest⟩
      obtain rfl : vs = [] := hrest
      exact h
    · rintro (_ | hv)
      exact ⟨.value hv, rfl⟩

end DependencyAtlas.Decoding
