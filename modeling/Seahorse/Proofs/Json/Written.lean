import Seahorse.Proofs.Json.Tokens

/-!
# Written values are read back

`Written` says which texts stand for a value, with any blanks between the tokens, and without regard
to how much there is to read. Both written forms of a value, the compact one and the indented one,
are such texts, and the reader makes of such a text the value it stands for.
-/

namespace Seahorse.Json

/-! ## Blanks -/

/-- Nothing but blanks. -/
def Blanks (b : List Char) : Prop :=
  ∀ c ∈ b, isBlank c = true

/-- Blanks are skipped. -/
theorem skipBlanks_append {b : List Char} (hb : Blanks b) (cs : List Char) :
    skipBlanks (b ++ cs) = skipBlanks cs := by
  induction b with
  | nil => rfl
  | cons c b ih =>
    have hc : isBlank c = true := hb c (by simp)
    have hrest := ih fun d hd => hb d (by simp [hd])
    simpa [skipBlanks, hc] using hrest

@[simp]
theorem skipBlanks_cons_of_not {c : Char} (hc : isBlank c = false) (cs : List Char) :
    skipBlanks (c :: cs) = c :: cs := by
  simp [skipBlanks, hc]

@[simp]
theorem skipBlanks_skipBlanks (cs : List Char) : skipBlanks (skipBlanks cs) = skipBlanks cs := by
  induction cs with
  | nil => rfl
  | cons c cs ih =>
    cases hc : isBlank c with
    | true => simpa [skipBlanks, hc] using ih
    | false => simp [hc]

/-- A value is read the same whether or not the blanks before it have been skipped. -/
theorem readValue_skipBlanks (fuel : Nat) (cs : List Char) :
    readValue fuel (skipBlanks cs) = readValue fuel cs := by
  cases fuel with
  | zero => rfl
  | succ fuel => rw [readValue, readValue, skipBlanks_skipBlanks]

theorem readValue_blanks_append (fuel : Nat) {b : List Char} (hb : Blanks b) (cs : List Char) :
    readValue fuel (b ++ cs) = readValue fuel cs := by
  rw [← readValue_skipBlanks, skipBlanks_append hb, readValue_skipBlanks]

theorem readItems_skipBlanks (fuel : Nat) (cs : List Char) :
    readItems fuel (skipBlanks cs) = readItems fuel cs := by
  cases fuel with
  | zero => rfl
  | succ fuel => rw [readItems, readItems, readValue_skipBlanks]

theorem readMembers_skipBlanks (fuel : Nat) (cs : List Char) :
    readMembers fuel (skipBlanks cs) = readMembers fuel cs := by
  cases fuel with
  | zero => rfl
  | succ fuel => rw [readMembers, readMembers, skipBlanks_skipBlanks]

/-! ## Texts of a value -/

/-- A value, or what stands behind the opening bracket of an array or object that is not empty. -/
inductive Part where
  /-- A value. -/
  | value (j : Json)
  /-- The items of an array. -/
  | items (js : List Json)
  /-- The members of an object. -/
  | members (ms : List (String × Json))

/-- The characters are a text of the part. Strings and numerals have one form; blanks may stand in
front of an item, a key, a value and a closing bracket. -/
inductive Written : Part → List Char → Prop where
  | null : Written (.value .null) "null".toList
  | bool (b : Bool) : Written (.value (.bool b)) (boolText b)
  | number (n : Numeral) : Written (.value (.number n)) n.text
  | string (s : String) : Written (.value (.string s)) (quote s)
  | emptyArray : Written (.value (.array [])) ['[', ']']
  | array {j : Json} {js : List Json} {cs : List Char} (h : Written (.items (j :: js)) cs) :
      Written (.value (.array (j :: js))) ('[' :: cs)
  | emptyObject : Written (.value (.object [])) ['\x7b', '\x7d']
  | object {m : String × Json} {ms : List (String × Json)} {cs : List Char}
      (h : Written (.members (m :: ms)) cs) : Written (.value (.object (m :: ms))) ('\x7b' :: cs)
  | lastItem {j : Json} {a b cs : List Char} (ha : Blanks a) (hb : Blanks b)
      (h : Written (.value j) cs) : Written (.items [j]) (a ++ (cs ++ (b ++ [']'])))
  | item {j : Json} {js : List Json} {a cs ds : List Char} (ha : Blanks a)
      (h : Written (.value j) cs) (hs : Written (.items js) ds) :
      Written (.items (j :: js)) (a ++ (cs ++ ',' :: ds))
  | lastMember {key : String} {j : Json} {a b c cs : List Char} (ha : Blanks a) (hb : Blanks b)
      (hc : Blanks c) (h : Written (.value j) cs) :
      Written (.members [(key, j)]) (a ++ (quote key ++ ':' :: (b ++ (cs ++ (c ++ ['\x7d'])))))
  | member {key : String} {j : Json} {ms : List (String × Json)} {a b cs ds : List Char}
      (ha : Blanks a) (hb : Blanks b) (h : Written (.value j) cs) (hs : Written (.members ms) ds) :
      Written (.members ((key, j) :: ms)) (a ++ (quote key ++ ':' :: (b ++ (cs ++ ',' :: ds))))

/-! ## Reading a text -/

theorem numeralEnds_cons {c : Char} (h : Decimal.digitOf? c = none ∧ c ≠ '.' ∧ c ≠ 'e' ∧ c ≠ 'E')
    (cs : List Char) : NumeralEnds (c :: cs) := by
  rintro d ⟨⟩
  exact h

/-- A numeral ends at a blank. -/
theorem NumeralEnds.blanks_append {b cs : List Char} (hb : Blanks b) (h : NumeralEnds cs) :
    NumeralEnds (b ++ cs) := by
  cases b with
  | nil => exact h
  | cons c b =>
    have hc : isBlank c = true := hb c (by simp)
    refine numeralEnds_cons ?_ _
    simp only [isBlank, Bool.or_eq_true, decide_eq_true_eq] at hc
    rcases hc with ((rfl | rfl) | rfl) | rfl <;> decide

/-- A numeral starts with a minus or a digit, so it is told from all other values by one character.
-/
theorem exists_text_cons (n : Numeral) :
    ∃ c cs, n.text = c :: cs ∧ (c = '-' ∨ ∃ d, c = Decimal.digitChar d) := by
  obtain ⟨d, ds, hd⟩ := List.exists_cons_of_ne_nil (digits_ne_nil n.whole)
  cases hn : n.negative with
  | true => exact ⟨'-', _, by rw [Numeral.text, hn]; rfl, .inl rfl⟩
  | false => exact ⟨_, _, by rw [Numeral.text, hn, hd]; rfl, .inr ⟨d, rfl⟩⟩

/-- What starts like a numeral is read as one. -/
theorem readValue_numeral (fuel : Nat) {c : Char} (hc : c = '-' ∨ ∃ d, c = Decimal.digitChar d)
    (cs : List Char) :
    readValue (fuel + 1) (c :: cs) =
      (readNumeral (c :: cs)).map fun (n, rest) => (.number n, rest) := by
  rcases hc with rfl | ⟨d, rfl⟩
  · rfl
  · fin_cases d <;> rfl

/-- The text of a value starts with a character of its own. -/
theorem Written.exists_cons {j : Json} {cs : List Char} (h : Written (.value j) cs) :
    ∃ c ds, cs = c :: ds ∧ isBlank c = false ∧ c ≠ ']' := by
  cases h with
  | null => exact ⟨'n', _, rfl, by decide, by decide⟩
  | bool b => cases b <;> exact ⟨_, _, rfl, by decide, by decide⟩
  | number n =>
    obtain ⟨c, ds, htext, hc⟩ := exists_text_cons n
    refine ⟨c, ds, htext, ?_⟩
    rcases hc with rfl | ⟨d, rfl⟩
    · decide
    · exact (by decide : ∀ d, isBlank (Decimal.digitChar d) = false ∧ Decimal.digitChar d ≠ ']') d
  | string s => exact ⟨'"', _, rfl, by decide, by decide⟩
  | emptyArray => exact ⟨'[', _, rfl, by decide, by decide⟩
  | array _ => exact ⟨'[', _, rfl, by decide, by decide⟩
  | emptyObject => exact ⟨'\x7b', _, rfl, by decide, by decide⟩
  | object _ => exact ⟨'\x7b', _, rfl, by decide, by decide⟩

theorem quote_append (s : String) (cs : List Char) :
    quote s ++ cs = '"' :: (s.toList.flatMap escape ++ '"' :: cs) := by
  simp [quote]

/-- Behind the opening bracket of an array that is not empty there is no closing one. -/
theorem Written.exists_skipBlanks_items {js : List Json} {cs : List Char}
    (h : Written (.items js) cs) (rest : List Char) :
    ∃ c ds, skipBlanks (cs ++ rest) = c :: ds ∧ c ≠ ']' := by
  have hvalue : ∀ {j : Json} {a vs : List Char} (ts : List Char), Blanks a → Written (.value j) vs →
      ∃ c ds, skipBlanks (a ++ (vs ++ ts)) = c :: ds ∧ c ≠ ']' := by
    intro j a vs ts ha hv
    obtain ⟨c, ds, rfl, hblank, hc⟩ := hv.exists_cons
    exact ⟨c, ds ++ ts, by rw [skipBlanks_append ha, List.cons_append, skipBlanks_cons_of_not hblank],
      hc⟩
  cases h with
  | lastItem ha hb h => simpa using hvalue _ ha h
  | item ha h hs => simpa using hvalue _ ha h

/-- Members start with a key, so they are not taken for an empty object. -/
theorem Written.exists_skipBlanks_members {ms : List (String × Json)} {cs : List Char}
    (h : Written (.members ms) cs) (rest : List Char) :
    ∃ c ds, skipBlanks (cs ++ rest) = c :: ds ∧ c ≠ '\x7d' := by
  cases h with
  | lastMember ha hb hc h =>
    exact ⟨'"', _, by rw [List.append_assoc, skipBlanks_append ha]; rfl, by decide⟩
  | member ha hb h hs =>
    exact ⟨'"', _, by rw [List.append_assoc, skipBlanks_append ha]; rfl, by decide⟩

/-- An array that is not closed at once has items. -/
theorem readValue_array (fuel : Nat) {cs ds : List Char} {c : Char} (hskip : skipBlanks cs = c :: ds)
    (hc : c ≠ ']') :
    readValue (fuel + 1) ('[' :: cs) =
      (readItems fuel cs).map fun (items, rest) => (.array items, rest) := by
  rw [← readItems_skipBlanks, readValue]
  simp [hskip, hc, isBlank]

/-- An object that is not closed at once has members. -/
theorem readValue_object (fuel : Nat) {cs ds : List Char} {c : Char} (hskip : skipBlanks cs = c :: ds)
    (hc : c ≠ '\x7d') :
    readValue (fuel + 1) ('\x7b' :: cs) =
      (readMembers fuel cs).map fun (members, rest) => (ofMembers members, rest) := by
  rw [← readMembers_skipBlanks, readValue]
  simp [hskip, hc, isBlank]

/-- Members whose keys are all texts make an object. -/
theorem ofMembers_map_some (ms : List (String × Json)) :
    ofMembers (ms.map fun m => (some m.1, m.2)) = .object ms := by
  have hkeys : (ms.map fun m => (some m.1, m.2)).mapM
      (fun m : Option String × Json => m.1.map fun s => (s, m.2)) = some ms := by
    induction ms with
    | nil => rfl
    | cons m ms ih =>
      rw [List.map_cons, List.mapM_cons, ih]
      rfl
  simp only [ofMembers, hkeys]

/-- Read as a part, the text gives the part and leaves what stands behind it. An opening bracket costs
two steps, and no other character costs more. -/
def Part.ReadFrom (cs : List Char) : Part → Prop
  | .value j => ∀ fuel rest, 2 * cs.length < fuel → NumeralEnds rest →
      readValue fuel (cs ++ rest) = some (j, rest)
  | .items js => ∀ fuel rest, 2 * cs.length ≤ fuel →
      readItems fuel (cs ++ rest) = some (js, rest)
  | .members ms => ∀ fuel rest, 2 * cs.length ≤ fuel →
      readMembers fuel (cs ++ rest) = some (ms.map fun m => (some m.1, m.2), rest)

/-- **Reading.** What is written as a part is read as this part. -/
theorem Written.readFrom {p : Part} {cs : List Char} (h : Written p cs) : p.ReadFrom cs := by
  induction h with
  | null =>
    rintro (- | fuel) rest hfuel -
    · omega
    · rfl
  | bool b =>
    rintro (- | fuel) rest hfuel -
    · omega
    · cases b <;> rfl
  | number n =>
    rintro (- | fuel) rest hfuel hrest
    · omega
    · have hread := readNumeral_text n hrest
      obtain ⟨c, ds, htext, hc⟩ := exists_text_cons n
      rw [htext, List.cons_append] at hread ⊢
      rw [readValue_numeral fuel hc, hread]
      rfl
  | string s =>
    rintro (- | fuel) rest hfuel -
    · omega
    · have hread := readString_quote s rest
      rw [quote_append, readValue]
      simp [skipBlanks, isBlank, hread]
  | emptyArray =>
    rintro (- | fuel) rest hfuel -
    · omega
    · rfl
  | array h ih =>
    rintro (- | fuel) rest hfuel -
    · omega
    · obtain ⟨c, ds, hskip, hc⟩ := h.exists_skipBlanks_items rest
      rw [List.length_cons] at hfuel
      rw [List.cons_append, readValue_array fuel hskip hc, ih fuel rest (by omega)]
      rfl
  | emptyObject =>
    rintro (- | fuel) rest hfuel -
    · omega
    · rfl
  | object h ih =>
    rintro (- | fuel) rest hfuel -
    · omega
    · obtain ⟨c, ds, hskip, hc⟩ := h.exists_skipBlanks_members rest
      rw [List.length_cons] at hfuel
      rw [List.cons_append, readValue_object fuel hskip hc, ih fuel rest (by omega)]
      simp only [Option.map_some, ofMembers_map_some]
  | @lastItem j a b cs ha hb h ih =>
    rintro (- | fuel) rest hfuel
    · simp at hfuel
    · simp only [List.length_append, List.length_singleton] at hfuel
      have hends : NumeralEnds (b ++ ']' :: rest) :=
        .blanks_append hb (numeralEnds_cons (by decide) rest)
      have hread := ih fuel (b ++ ']' :: rest) (by omega) hends
      simp only [List.append_assoc, List.singleton_append]
      rw [readItems, readValue_blanks_append fuel ha, hread]
      simp [skipBlanks_append hb, isBlank]
  | @item j js a cs ds ha h hs ih ihs =>
    rintro (- | fuel) rest hfuel
    · simp at hfuel
    · simp only [List.length_append, List.length_cons] at hfuel
      have hread := ih fuel (',' :: (ds ++ rest)) (by omega) (numeralEnds_cons (by decide) _)
      have hreads := ihs fuel rest (by omega)
      simp only [List.append_assoc, List.cons_append]
      rw [readItems, readValue_blanks_append fuel ha, hread]
      simp [hreads, isBlank]
  | @lastMember key j a b c cs ha hb hc h ih =>
    rintro (- | fuel) rest hfuel
    · simp at hfuel
    · simp only [List.length_append, List.length_cons, List.length_nil] at hfuel
      have hends : NumeralEnds (c ++ '\x7d' :: rest) :=
        .blanks_append hc (numeralEnds_cons (by decide) rest)
      have hread := ih fuel (c ++ '\x7d' :: rest) (by omega) hends
      have hkey := readString_quote key (':' :: (b ++ (cs ++ (c ++ '\x7d' :: rest))))
      simp only [List.append_assoc, List.cons_append, List.nil_append]
      rw [quote_append, readMembers, skipBlanks_append ha]
      simp [hkey, readValue_blanks_append fuel hb, hread, skipBlanks_append hc, isBlank]
  | @member key j ms a b cs ds ha hb h hs ih ihs =>
    rintro (- | fuel) rest hfuel
    · simp at hfuel
    · simp only [List.length_append, List.length_cons] at hfuel
      have hread := ih fuel (',' :: (ds ++ rest)) (by omega) (numeralEnds_cons (by decide) _)
      have hreads := ihs fuel rest (by omega)
      have hkey := readString_quote key (':' :: (b ++ (cs ++ ',' :: (ds ++ rest))))
      simp only [List.append_assoc, List.cons_append]
      rw [quote_append, readMembers, skipBlanks_append ha]
      simp [hkey, readValue_blanks_append fuel hb, hread, hreads, isBlank]

/-- A text of a value, with nothing else around it, is read as the value. -/
theorem Written.readAll? {j : Json} {cs : List Char} (h : Written (.value j) cs) :
    readAll? cs = some j := by
  have hread : readValue (2 * cs.length + 1) (cs ++ []) = some (j, []) :=
    h.readFrom _ [] (Nat.lt_succ_self _) nofun
  rw [List.append_nil] at hread
  simp [Json.readAll?, hread, skipBlanks]

/-! ## The two written forms -/

theorem blanks_nil : Blanks [] := nofun

theorem blanks_space : Blanks [' '] := by
  rintro c ⟨⟩
  · rfl
  · contradiction

theorem blanks_newline (level : Nat) : Blanks (newline level) := by
  intro c hc
  rcases List.mem_cons.mp hc with rfl | hc
  · rfl
  · rw [List.eq_of_mem_replicate hc]
    rfl

-- A value that can be held in memory has no garbled part, which would not be written as what it is.
mutual

/-- The compact text of a value follows the grammar. -/
theorem written_compact : ∀ (j : Json) (room : Nat), j.holdable room = true →
    Written (.value j) j.compact
  | .null, _, _ => .null
  | .bool b, _, _ => .bool b
  | .number n, _, _ => .number n
  | .string s, _, _ => .string s
  | .array [], _, _ => .emptyArray
  | .array (j :: js), room, h =>
    .array (written_compactItems (j :: js) (room - 1) (Bool.and_eq_true_iff.mp h).2 nofun)
  | .object [], _, _ => .emptyObject
  | .object (m :: ms), room, h =>
    .object (written_compactMembers (m :: ms) (room - 1) (Bool.and_eq_true_iff.mp h).2 nofun)

theorem written_compactItems : ∀ (js : List Json) (room : Nat), itemsHoldable room js = true →
    js ≠ [] → Written (.items js) (compactItems js)
  | [], _, _, hne => absurd rfl hne
  | [j], room, h, _ =>
    .lastItem blanks_nil blanks_nil (written_compact j room (Bool.and_eq_true_iff.mp h).1)
  | j :: k :: js, room, h, _ =>
    have h := Bool.and_eq_true_iff.mp h
    .item blanks_nil (written_compact j room h.1) (written_compactItems (k :: js) room h.2 nofun)

theorem written_compactMembers : ∀ (ms : List (String × Json)) (room : Nat),
    membersHoldable room ms = true → ms ≠ [] → Written (.members ms) (compactMembers ms)
  | [], _, _, hne => absurd rfl hne
  | [(key, j)], room, h, _ => by
    have hj := written_compact j room (Bool.and_eq_true_iff.mp h).1
    have hmember : Written (.members [(key, j)]) _ := .lastMember blanks_nil blanks_nil blanks_nil hj
    simpa [compactMembers] using hmember
  | (key, j) :: m :: ms, room, h, _ => by
    have h := Bool.and_eq_true_iff.mp h
    have hj := written_compact j room h.1
    have hms := written_compactMembers (m :: ms) room h.2 nofun
    have hmember : Written (.members ((key, j) :: m :: ms)) _ := .member blanks_nil blanks_nil hj hms
    simpa [compactMembers] using hmember

end

mutual

/-- So does the indented text. -/
theorem written_indented : ∀ (j : Json) (level room : Nat), j.holdable room = true →
    Written (.value j) (j.indented level)
  | .null, _, _, _ => .null
  | .bool b, _, _, _ => .bool b
  | .number n, _, _, _ => .number n
  | .string s, _, _, _ => .string s
  | .array [], _, _, _ => .emptyArray
  | .array (j :: js), level, room, h =>
    .array (written_indentedItems (j :: js) level (room - 1) (Bool.and_eq_true_iff.mp h).2 nofun)
  | .object [], _, _, _ => .emptyObject
  | .object (m :: ms), level, room, h =>
    .object (written_indentedMembers (m :: ms) level (room - 1) (Bool.and_eq_true_iff.mp h).2 nofun)

theorem written_indentedItems : ∀ (js : List Json) (level room : Nat),
    itemsHoldable room js = true → js ≠ [] → Written (.items js) (indentedItems level js)
  | [], _, _, _, hne => absurd rfl hne
  | [j], level, room, h, _ => by
    have hj := written_indented j (level + 1) room (Bool.and_eq_true_iff.mp h).1
    have hitem := Written.lastItem (blanks_newline (level + 1)) (blanks_newline level) hj
    simpa [indentedItems] using hitem
  | j :: k :: js, level, room, h, _ => by
    have h := Bool.and_eq_true_iff.mp h
    have hj := written_indented j (level + 1) room h.1
    have hjs := written_indentedItems (k :: js) level room h.2 nofun
    simpa [indentedItems] using Written.item (blanks_newline (level + 1)) hj hjs

theorem written_indentedMembers : ∀ (ms : List (String × Json)) (level room : Nat),
    membersHoldable room ms = true → ms ≠ [] → Written (.members ms) (indentedMembers level ms)
  | [], _, _, _, hne => absurd rfl hne
  | [(key, j)], level, room, h, _ => by
    have hj := written_indented j (level + 1) room (Bool.and_eq_true_iff.mp h).1
    have hmember : Written (.members [(key, j)]) _ :=
      .lastMember (blanks_newline (level + 1)) blanks_space (blanks_newline level) hj
    simpa [indentedMembers] using hmember
  | (key, j) :: m :: ms, level, room, h, _ => by
    have h := Bool.and_eq_true_iff.mp h
    have hj := written_indented j (level + 1) room h.1
    have hms := written_indentedMembers (m :: ms) level room h.2 nofun
    have hmember : Written (.members ((key, j) :: m :: ms)) _ :=
      .member (blanks_newline (level + 1)) blanks_space hj hms
    simpa [indentedMembers] using hmember

end

variable {j : Json} {room : Nat}

/-- **Round trip.** A value that can be held in memory is read back from its compact form. -/
theorem read?_render (h : j.holdable room = true) : read? j.render = some j := by
  rw [read?, render, String.toList_ofList]
  exact (written_compact j room h).readAll?

/-- The same, for its indented form. -/
theorem read?_renderIndented (h : j.holdable room = true) : read? j.renderIndented = some j := by
  rw [read?, renderIndented, String.toList_ofList]
  exact (written_indented j 0 room h).readAll?

end Seahorse.Json
