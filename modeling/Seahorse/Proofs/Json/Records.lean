import Seahorse.Codec.Level
import Seahorse.Proofs.Decimal.ReadBack
import Seahorse.Proofs.Json.Written

/-!
# Records, choices and numbers in JSON

What a reader of records makes of what a writer of records has written: the fields of an object with
each name once, the tag and the body of a choice, the items of a list, numbers within their bounds.
`StandsFor` says of a JSON value all that is needed to put it into a larger one and to send it through
a text: what it is read as, and how deep it is.
-/

namespace Seahorse.Json

variable {α : Type}

/-! ## Values that stand for something -/

/-- A JSON value is read as `a`, and can be held in memory wherever there is room for `depth`
containers. -/
structure StandsFor (ofJson? : Json → Option α) (depth : Nat) (j : Json) (a : α) : Prop where
  read : ofJson? j = some a
  holdable : ∀ room, depth ≤ room → j.holdable room = true

namespace StandsFor

variable {ofJson? : Json → Option α} {depth : Nat} {j : Json} {a : α}

/-- So it is read from its compact text. -/
theorem decode?_render (h : StandsFor ofJson? depth j a) : decode? ofJson? j.render = some a := by
  rw [decode?, read?_render (h.holdable depth le_rfl), Option.bind_some, h.read]

/-- And from its indented text. -/
theorem decode?_renderIndented (h : StandsFor ofJson? depth j a) :
    decode? ofJson? j.renderIndented = some a := by
  rw [decode?, read?_renderIndented (h.holdable depth le_rfl), Option.bind_some, h.read]

end StandsFor

/-! ## Depth -/

theorem itemsHoldable_iff {room : Nat} {js : List Json} :
    itemsHoldable room js = true ↔ ∀ j ∈ js, j.holdable room = true := by
  induction js with
  | nil => simp [itemsHoldable]
  | cons j js ih => simp [itemsHoldable, ih]

theorem membersHoldable_iff {room : Nat} {ms : List (String × Json)} :
    membersHoldable room ms = true ↔ ∀ m ∈ ms, m.2.holdable room = true := by
  induction ms with
  | nil => simp [membersHoldable]
  | cons m ms ih => simp [membersHoldable, ih]

/-- An array needs one container more than its items. -/
theorem holdable_array {room : Nat} {js : List Json} (hroom : 0 < room)
    (h : ∀ j ∈ js, j.holdable (room - 1) = true) : (array js).holdable room = true := by
  rw [holdable, Bool.and_eq_true_iff, itemsHoldable_iff]
  exact ⟨decide_eq_true hroom, h⟩

/-- An object needs one container more than its members. -/
theorem holdable_object {room : Nat} {ms : List (String × Json)} (hroom : 0 < room)
    (h : ∀ m ∈ ms, m.2.holdable (room - 1) = true) : (object ms).holdable room = true := by
  rw [holdable, Bool.and_eq_true_iff, membersHoldable_iff]
  exact ⟨decide_eq_true hroom, h⟩

/-! ## Fields -/

@[simp]
theorem required_some (ofJson? : Json → Option α) (j : Json) :
    required ofJson? (some j) = ofJson? j := rfl

@[simp]
theorem optional_some (default : α) (ofJson? : Json → Option α) (j : Json) :
    optional default ofJson? (some j) = ofJson? j := rfl

/-- With every name once, a member is found by its name alone. -/
theorem filter_fst_eq {ms : List (String × Json)} (hms : (ms.map Prod.fst).Nodup)
    {m : String × Json} (hm : m ∈ ms) : ms.filter (·.1 = m.1) = [m] := by
  induction ms with
  | nil => cases hm
  | cons x xs ih =>
    obtain ⟨hx, hxs⟩ := List.nodup_cons.mp hms
    rcases List.mem_cons.mp hm with rfl | hm
    · have hrest : xs.filter (·.1 = m.1) = [] := by
        rw [List.filter_eq_nil_iff]
        intro y hy heq
        exact hx (of_decide_eq_true heq ▸ List.mem_map_of_mem hy)
      simp [hrest]
    · have hne : x.1 ≠ m.1 := fun heq => hx (heq ▸ List.mem_map_of_mem hm)
      simp [hne, ih hxs hm]

theorem member?_of_mem {ms : List (String × Json)} (hms : (ms.map Prod.fst).Nodup)
    {m : String × Json} (hm : m ∈ ms) : member? ms m.1 = some (some m.2) := by
  rw [member?, filter_fst_eq hms hm]

/-- Written as an object with every name once, the fields are found in their order. -/
theorem slots?_object {ms : List (String × Json)} (hms : (ms.map Prod.fst).Nodup) :
    slots? (ms.map Prod.fst) (object ms) = some (ms.map fun m => some m.2) := by
  have hpart : ∀ l ⊆ ms, (l.map Prod.fst).mapM (member? ms) = some (l.map fun m => some m.2) := by
    intro l hl
    induction l with
    | nil => rfl
    | cons m l ih =>
      obtain ⟨hm, hl⟩ := List.cons_subset.mp hl
      simp [member?_of_mem hms hm, ih hl]
  exact hpart ms (List.Subset.refl ms)

/-- A choice is found by its tag. -/
theorem tagged?_cons {tag : String} {ms : List (String × Json)} (hms : tag ∉ ms.map Prod.fst)
    (s : String) : tagged? tag (object ((tag, string s) :: ms)) = some (s, object ms) := by
  have hne : ∀ m ∈ ms, m.1 ≠ tag := fun m hm heq => hms (heq ▸ List.mem_map_of_mem hm)
  have hnone : ms.filter (·.1 = tag) = [] := by
    rw [List.filter_eq_nil_iff]
    exact fun m hm heq => hne m hm (of_decide_eq_true heq)
  have hall : ms.filter (·.1 ≠ tag) = ms := by
    rw [List.filter_eq_self]
    exact fun m hm => decide_eq_true (hne m hm)
  have hmember : member? ((tag, string s) :: ms) tag = some (some (string s)) := by
    simp [member?, hnone]
  have hbody : ((tag, string s) :: ms).filter (·.1 ≠ tag) = ms := by
    rw [List.filter_cons_of_neg (by simp), hall]
  simp only [tagged?, hmember, hbody]

/-- An object with every name once is read from its fields. -/
theorem StandsFor.fields {ofJson? : Json → Option α} {depth : Nat} {ms : List (String × Json)} {a : α}
    (hnames : (ms.map Prod.fst).Nodup)
    (hholdable : ∀ room, depth ≤ room → (object ms).holdable room = true)
    (hread : ∀ j, slots? (ms.map Prod.fst) j = some (ms.map fun m => some m.2) → ofJson? j = some a) :
    StandsFor ofJson? depth (object ms) a :=
  ⟨hread _ (slots?_object hnames), hholdable⟩

/-- One container more than its members need is what a record needs. -/
theorem StandsFor.record {ofJson? : Json → Option α} {depth : Nat} {ms : List (String × Json)} {a : α}
    (hnames : (ms.map Prod.fst).Nodup)
    (hdepth : ∀ room, depth ≤ room → ∀ m ∈ ms, m.2.holdable room = true)
    (hread : ∀ j, slots? (ms.map Prod.fst) j = some (ms.map fun m => some m.2) → ofJson? j = some a) :
    StandsFor ofJson? (depth + 1) (object ms) a := by
  refine .fields hnames (fun room hroom => holdable_object (by omega) ?_) hread
  exact hdepth (room - 1) (by omega)

/-- A tag before the members does not make an object deeper. -/
theorem holdable_tagged {room : Nat} {ms : List (String × Json)} (tag s : String)
    (h : (object ms).holdable room = true) :
    (object ((tag, string s) :: ms)).holdable room = true := by
  rw [holdable, Bool.and_eq_true_iff, membersHoldable_iff] at h
  refine holdable_object (of_decide_eq_true h.1) fun m hm => ?_
  rcases List.mem_cons.mp hm with rfl | hm
  · rfl
  · exact h.2 m hm

/-- A choice that is held in memory until its tag is known is read from its tag and its body. -/
theorem StandsFor.tagged {ofTagged? : String → Json → Option α} {tag s : String}
    {ms : List (String × Json)} {depth room : Nat} {a : α} (htag : tag ∉ ms.map Prod.fst)
    (h : StandsFor (ofTagged? s) depth (object ms) a) (hroom : depth ≤ room) :
    StandsFor (fun j => if j.holdable room then (tagged? tag j).bind fun (s, body) => ofTagged? s body
      else none) depth (object ((tag, string s) :: ms)) a := by
  refine ⟨?_, fun room hroom => holdable_tagged tag s (h.holdable room hroom)⟩
  rw [if_pos (holdable_tagged tag s (h.holdable room hroom)), tagged?_cons htag]
  exact h.read

/-! ## Lists, numbers and choices without data -/

theorem list?_map {β : Type} {ofJson? : Json → Option β} {toJson : α → Json} {f : α → β} {l : List α}
    (h : ∀ a ∈ l, ofJson? (toJson a) = some (f a)) :
    list? ofJson? (array (l.map toJson)) = some (l.map f) := by
  rw [list?]
  induction l with
  | nil => rfl
  | cons a l ih =>
    have hrest := ih fun b hb => h b (by simp [hb])
    simp [h a (by simp), hrest]

/-- A list is read back if its items are. -/
theorem StandsFor.list {β : Type} {ofJson? : Json → Option β} {toJson : α → Json} {f : α → β}
    {depth : Nat} {l : List α} (h : ∀ a ∈ l, StandsFor ofJson? depth (toJson a) (f a)) :
    StandsFor (list? ofJson?) (depth + 1) (array (l.map toJson)) (l.map f) := by
  refine ⟨list?_map fun a ha => (h a ha).read, fun room hroom => holdable_array (by omega) ?_⟩
  intro j hj
  obtain ⟨a, ha, rfl⟩ := List.mem_map.mp hj
  exact (h a ha).holdable (room - 1) (by omega)

theorem StandsFor.string (s : String) : StandsFor string? 0 (string s) s :=
  ⟨rfl, fun _ _ => rfl⟩

theorem StandsFor.bool (b : Bool) : StandsFor bool? 0 (bool b) b :=
  ⟨rfl, fun _ _ => rfl⟩

/-- A count below a bound is read back where that bound is checked. -/
theorem natBelow?_ofNat {bound n : Nat} (h : n < bound) : (ofNat n).natBelow? bound = some n := by
  simp [ofNat, natBelow?, Numeral.natBelow?, Numeral.ofNat, Numeral.isInteger, h]

theorem holdable_ofNat {n : Nat} (h : n < UInt64.size) (room : Nat) :
    (ofNat n).holdable room = true := by
  simp [ofNat, holdable, Numeral.quantity?, Numeral.ofNat, Numeral.isInteger, h]

theorem StandsFor.index {n : Nat} (h : n < UInt64.size) : StandsFor index? 0 (ofNat n) n :=
  ⟨natBelow?_ofNat h, fun room _ => holdable_ofNat h room⟩

/-- A word of 32 bits is read back, since it is written as a count below the bound. -/
theorem StandsFor.word32 (w : UInt32) : StandsFor word32? 0 (ofNat w.toNat) w := by
  have hlt := w.toNat_lt
  refine ⟨?_, fun room _ => holdable_ofNat (by change w.toNat < 2 ^ 64; omega) room⟩
  rw [word32?, natBelow?_ofNat w.toNat_lt_size, Option.map_some, UInt32.ofNat_toNat]

/-- A finite scalar is read back from its numeral. -/
theorem StandsFor.scalar {x : Scalar} (h : x.isFinite = true) :
    StandsFor scalar? 0 (ofScalar x) x := by
  obtain ⟨n, hn, hx⟩ := Option.bind_eq_some_iff.mp (Scalar.readsBack_of_isFinite h)
  have hj : ofScalar x = number n := by simp [ofScalar, hn]
  refine ⟨by rw [hj]; exact hx, fun room _ => ?_⟩
  obtain ⟨q, hq, -⟩ := Option.map_eq_some_iff.mp hx
  simp [hj, Json.holdable, hq]

/-- A choice without data is read back if no other choice has its name. -/
theorem StandsFor.oneOf {choices : List α} {name : α → String} {a : α} (ha : a ∈ choices)
    (hname : ∀ b ∈ choices, name b = name a → b = a) (held : Bool) :
    StandsFor (oneOf? choices name held) 0 (Json.string (name a)) a := by
  refine ⟨?_, fun _ _ => rfl⟩
  show choices.find? (name · = name a) = some a
  cases hfind : choices.find? (name · = name a) with
  | none => exact absurd (List.find?_eq_none.mp hfind a ha) (by simp)
  | some b =>
    have hb : name b = name a := by simpa using List.find?_some hfind
    rw [hname b (List.mem_of_find?_eq_some hfind) hb]

/-! ## What has no numeral -/

/-- A scalar that is not finite has no numeral and is written as `null`. -/
theorem ofScalar_of_not_isFinite {x : Scalar} (h : x.isFinite = false) : ofScalar x = null := by
  change x.toModel.unpack.isFinite = false at h
  unfold ofScalar Numeral.ofScalar? Decimal.ofScalar?
  cases hunpack : x.toModel.unpack with
  | infinity s => rfl
  | notANumber => rfl
  | zero s =>
    rw [hunpack] at h
    cases h
  | finite s m q hm =>
    rw [hunpack] at h
    cases h

/-- And a `null` is not read as a scalar. -/
theorem scalar?_ofScalar_of_not_isFinite {x : Scalar} (h : x.isFinite = false) :
    scalar? (ofScalar x) = none := by
  rw [ofScalar_of_not_isFinite h]
  rfl

/-- Finite or not, what a scalar is written as can be held in memory. -/
theorem holdable_ofScalar (x : Scalar) (room : Nat) : (ofScalar x).holdable room = true := by
  cases h : x.isFinite with
  | true => exact (StandsFor.scalar h).holdable room (Nat.zero_le room)
  | false =>
    rw [ofScalar_of_not_isFinite h]
    rfl

/-- One item that is not read keeps the whole list from being read. -/
theorem list?_eq_none {β : Type} {ofJson? : Json → Option β} {toJson : α → Json} {l : List α} {a : α}
    (ha : a ∈ l) (h : ofJson? (toJson a) = none) : list? ofJson? (array (l.map toJson)) = none := by
  rw [list?]
  induction l with
  | nil => cases ha
  | cons b l ih =>
    rcases List.mem_cons.mp ha with rfl | ha
    · simp [h]
    · simp [ih ha]

end Seahorse.Json
