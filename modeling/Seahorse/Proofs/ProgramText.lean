import Mathlib.Data.List.Basic
import Seahorse.Command.Parse

/-!
# Programs in a text

A text is read as the names that stand in it, in their order. A name stands where no separator is in
it and none of its neighbours could be added to it; this is said here of the text itself, without
cutting it. Three things follow: texts with a separator between them are read one after the other, the
first name that is no command is the one that is reported, and every way to write a list of commands
is read as that list.
-/

namespace Seahorse

namespace Program

/-! ## The names in a text -/

/-- Between two parts of a text stands a name: without a separator, and as long as it can be. -/
structure Stands (before name after : List Char) : Prop where
  ne_nil : name ≠ []
  solid : ∀ c ∈ name, isSeparator c = false
  left : ∀ c, before.getLast? = some c → isSeparator c = true
  right : ∀ c, after.head? = some c → isSeparator c = true

theorem tokens_nil : tokens [] = [] := rfl

theorem tokens_append_cons {s : Char} (hs : isSeparator s = true) (a b : List Char) :
    tokens (a ++ s :: b) = tokens a ++ tokens b := by
  unfold tokens
  rw [split_append_cons hs, List.filter_append]

theorem tokens_cons {s : Char} (hs : isSeparator s = true) (b : List Char) :
    tokens (s :: b) = tokens b :=
  tokens_append_cons hs [] b

theorem tokens_gap_append {gap : List Char} (hgap : ∀ c ∈ gap, isSeparator c = true)
    (b : List Char) : tokens (gap ++ b) = tokens b := by
  induction gap with
  | nil => rfl
  | cons s gap ih =>
    obtain ⟨hs, hgap⟩ := List.forall_mem_cons.mp hgap
    rw [List.cons_append, tokens_cons hs, ih hgap]

theorem tokens_gap {gap : List Char} (hgap : ∀ c ∈ gap, isSeparator c = true) :
    tokens gap = [] := by
  rw [← List.append_nil gap, tokens_gap_append hgap, tokens_nil]

theorem split_solid {name : List Char} (hsolid : ∀ c ∈ name, isSeparator c = false) :
    split name = [name] := by
  induction name with
  | nil => rfl
  | cons c name ih =>
    obtain ⟨hc, hname⟩ := List.forall_mem_cons.mp hsolid
    simp [split, hc, ih hname]

theorem tokens_solid {name : List Char} (hne : name ≠ [])
    (hsolid : ∀ c ∈ name, isSeparator c = false) : tokens name = [name] := by
  simp [tokens, split_solid hsolid, hne]

/-- A name that stands in a text is one of its tokens, at its place among them. -/
theorem Stands.tokens_eq {before name after : List Char} (h : Stands before name after) :
    tokens (before ++ name ++ after) = tokens before ++ name :: tokens after := by
  have hafter : tokens (name ++ after) = name :: tokens after := by
    cases after with
    | nil => rw [List.append_nil, tokens_solid h.ne_nil h.solid, tokens_nil]
    | cons s after =>
      have hs := h.right s rfl
      rw [tokens_append_cons hs, tokens_solid h.ne_nil h.solid, tokens_cons hs, List.singleton_append]
  rcases before.eq_nil_or_concat with rfl | ⟨before, s, rfl⟩
  · exact hafter
  · have hs := h.left s (by simp)
    rw [List.concat_eq_append, List.append_assoc, List.append_assoc, List.singleton_append,
      tokens_append_cons hs, hafter, tokens_append_cons hs, tokens_nil, List.append_nil]

/-- The first token stands behind nothing but separators. -/
theorem exists_stands_of_tokens_cons {cs name : List Char} {rest : List (List Char)}
    (h : tokens cs = name :: rest) :
    ∃ gap after, cs = gap ++ name ++ after ∧ (∀ c ∈ gap, isSeparator c = true) ∧
      Stands gap name after ∧ tokens after = rest := by
  induction cs with
  | nil => cases h
  | cons c cs ih =>
    cases hc : isSeparator c with
    | true =>
      rw [tokens_cons hc] at h
      obtain ⟨gap, after, rfl, hgap, hstands, hrest⟩ := ih h
      have hgap' : ∀ d ∈ c :: gap, isSeparator d = true := List.forall_mem_cons.mpr ⟨hc, hgap⟩
      refine ⟨c :: gap, after, rfl, hgap', ⟨hstands.ne_nil, hstands.solid, ?_, hstands.right⟩, hrest⟩
      intro d hd
      exact hgap' d (List.mem_of_getLast? hd)
    | false =>
      -- the word at the head of the text is the first token
      let word := (c :: cs).takeWhile fun d => !isSeparator d
      let after := (c :: cs).dropWhile fun d => !isSeparator d
      have hcs : c :: cs = word ++ after := List.takeWhile_append_dropWhile.symm
      have hstands : Stands [] word after := by
        refine ⟨by simp [word, hc], fun d hd => ?_, by simp, fun d hd => ?_⟩
        · simpa using List.all_eq_true.mp List.all_takeWhile d hd
        · have hhead := List.head?_dropWhile_not (fun d => !isSeparator d) (c :: cs)
          rw [show ((c :: cs).dropWhile fun d => !isSeparator d).head? = some d from hd] at hhead
          simpa using hhead
      have htokens := hstands.tokens_eq
      rw [List.nil_append, ← hcs, h] at htokens
      obtain ⟨rfl, rfl⟩ := List.cons.inj htokens
      exact ⟨[], after, hcs, by simp, hstands, rfl⟩

/-- Every token stands in the text, between the parts with the tokens before and behind it. -/
theorem exists_stands_of_tokens_eq {cs name : List Char} {ahead behind : List (List Char)}
    (h : tokens cs = ahead ++ name :: behind) :
    ∃ before after, cs = before ++ name ++ after ∧ Stands before name after ∧
      tokens before = ahead ∧ tokens after = behind := by
  induction ahead generalizing cs with
  | nil =>
    obtain ⟨gap, after, rfl, hgap, hstands, hbehind⟩ := exists_stands_of_tokens_cons h
    exact ⟨gap, after, rfl, hstands, tokens_gap hgap, hbehind⟩
  | cons first ahead ih =>
    obtain ⟨gap, rest, rfl, hgap, hfirst, hrest⟩ := exists_stands_of_tokens_cons h
    obtain ⟨before, after, rfl, hstands, hbefore, hbehind⟩ := ih hrest
    -- something stands between the two names, or the first one could be extended
    obtain ⟨s, before', rfl⟩ : ∃ s before', before = s :: before' := by
      cases before with
      | cons s before' => exact ⟨s, before', rfl⟩
      | nil =>
        obtain ⟨c, name', rfl⟩ := List.exists_cons_of_ne_nil hstands.ne_nil
        have hsep := hfirst.right c rfl
        rw [hstands.solid c (by simp)] at hsep
        cases hsep
    have hfirst' : Stands gap first (s :: before') :=
      ⟨hfirst.ne_nil, hfirst.solid, hfirst.left, fun c hc => hfirst.right c hc⟩
    refine ⟨gap ++ first ++ s :: before', after, by simp, ⟨hstands.ne_nil, hstands.solid, ?_,
      hstands.right⟩, ?_, hbehind⟩
    · intro c hc
      rw [List.getLast?_append_of_ne_nil _ (by simp)] at hc
      exact hstands.left c hc
    · rw [hfirst'.tokens_eq, tokens_gap hgap, hbefore, List.nil_append]

/-! ## Several names in one text -/

theorem not_left_of_solid {before name : List Char} (hne : name ≠ [])
    (hsolid : ∀ c ∈ name, isSeparator c = false)
    (hleft : ∀ c, (before ++ name).getLast? = some c → isSeparator c = true) : False := by
  obtain ⟨c, hc⟩ := List.getLast?_isSome.mpr hne |> Option.isSome_iff_exists.mp
  have hsep := hleft c (by rw [List.getLast?_append_of_ne_nil _ hne, hc])
  rw [hsolid c (List.mem_of_getLast? hc)] at hsep
  cases hsep

/-- Of two names in a text, one stands wholly before the other. -/
theorem Stands.exists_between {b n a before name after : List Char} (h : Stands b n a)
    (h' : Stands before name after) (heq : b ++ n ++ a = before ++ name ++ after)
    (hlt : b.length < before.length) : ∃ between, before = b ++ n ++ between ∧ Stands b n between := by
  rw [List.append_assoc before] at heq
  rcases List.append_eq_append_iff.mp heq with ⟨between, rfl, rfl⟩ | ⟨rest, hrest, -⟩
  · refine ⟨between, rfl, h.ne_nil, h.solid, h.left, fun c hc => ?_⟩
    exact h.right c (by rw [List.head?_append, hc, Option.some_or])
  · -- the earlier name would reach up to the later one
    exfalso
    rcases List.append_eq_append_iff.mp hrest with ⟨part, rfl, rfl⟩ | ⟨part, rfl, -⟩
    · have hne : part ≠ [] := by
        rintro rfl
        simp at hlt
      exact not_left_of_solid hne (fun c hc => h.solid c (List.mem_append_left _ hc)) h'.left
    · rw [List.length_append] at hlt
      omega

/-- A name that stands in the part before another one stands in the whole text. -/
theorem Stands.append {b n between name after : List Char} (h : Stands b n between)
    (h' : Stands (b ++ n ++ between) name after) : Stands b n (between ++ name ++ after) := by
  cases between with
  | nil =>
    rw [List.append_nil] at h'
    exact (not_left_of_solid h.ne_nil h.solid h'.left).elim
  | cons s between => exact ⟨h.ne_nil, h.solid, h.left, fun c hc => h.right c hc⟩

/-- The first name in a text that is no command. -/
def IsFirstUnknown (cs name : List Char) : Prop :=
  ∃ before after, cs = before ++ name ++ after ∧ Stands before name after ∧
    (∀ c, Command.parse name ≠ .ok c) ∧
    ∀ b n a, cs = b ++ n ++ a → Stands b n a → b.length < before.length → ∃ c, Command.parse n = .ok c

end Program

/-! ## Reading the names -/

theorem Text.trim_of_forall {cs : List Char} (h : ∀ c ∈ cs, isBlank c = false) : trim cs = cs := by
  have hdrop : ∀ l : List Char, (∀ c ∈ l, isBlank c = false) → l.dropWhile isBlank = l := by
    intro l hl
    cases l with
    | nil => rfl
    | cons c l => simp [hl c (by simp)]
  rw [trim, hdrop cs h, hdrop cs.reverse fun c hc => h c (List.mem_reverse.mp hc), List.reverse_reverse]

theorem Command.trim_solid {name : List Char}
    (hsolid : ∀ c ∈ name, Program.isSeparator c = false) : Text.trim name = name := by
  refine Text.trim_of_forall fun c hc => ?_
  have hc := hsolid c hc
  rw [Program.isSeparator, Bool.or_eq_false_iff] at hc
  exact hc.2

/-- A name in a text is reported as it is written. -/
theorem Command.parse_eq_error {name : List Char} {f : Failure}
    (hsolid : ∀ c ∈ name, Program.isSeparator c = false) (h : parse name = .error f) :
    f = .unknownCommand (String.ofList name) := by
  unfold parse at h
  rw [trim_solid hsolid] at h
  cases hkey : ofKey? (keyOf name) with
  | some c => simp [hkey] at h
  | none =>
    rw [hkey] at h
    exact (Except.error.inj h).symm

theorem mapM_cons_eq_error_iff {α β ε : Type} {f : α → Except ε β} {x : α} {l : List α} {e : ε} :
    (x :: l).mapM f = .error e ↔ f x = .error e ∨ (∃ y, f x = .ok y) ∧ l.mapM f = .error e := by
  rw [List.mapM_cons]
  cases f x with
  | error e' => simp [bind, Except.bind]
  | ok y => cases l.mapM f <;> simp [bind, Except.bind, pure, Except.pure]

/-- Reading a list stops at the first item that cannot be read. -/
theorem mapM_eq_error_iff {α β ε : Type} {f : α → Except ε β} {l : List α} {e : ε} :
    l.mapM f = .error e ↔
      ∃ ahead a behind, l = ahead ++ a :: behind ∧ f a = .error e ∧ ∀ x ∈ ahead, ∃ y, f x = .ok y := by
  induction l with
  | nil => simp [pure, Except.pure]
  | cons x l ih =>
    rw [mapM_cons_eq_error_iff, ih]
    constructor
    · rintro (hx | ⟨hx, ahead, a, behind, rfl, ha, hahead⟩)
      · exact ⟨[], x, l, rfl, hx, by simp⟩
      · exact ⟨x :: ahead, a, behind, rfl, ha, List.forall_mem_cons.mpr ⟨hx, hahead⟩⟩
    · rintro ⟨_ | ⟨z, ahead⟩, a, behind, hl, ha, hahead⟩
      · obtain ⟨rfl, rfl⟩ := List.cons.inj hl
        exact .inl ha
      · obtain ⟨rfl, rfl⟩ := List.cons.inj hl
        obtain ⟨hx, hahead⟩ := List.forall_mem_cons.mp hahead
        exact .inr ⟨hx, ahead, a, behind, rfl, ha, hahead⟩

namespace Program

theorem parse_eq_error_iff {text : String} {f : Failure} :
    parse text = .error f ↔
      ∃ name, IsFirstUnknown text.toList name ∧ f = .unknownCommand (String.ofList name) := by
  rw [parse, mapM_eq_error_iff]
  constructor
  · rintro ⟨ahead, name, behind, htokens, hname, hahead⟩
    obtain ⟨before, after, hcs, hstands, rfl, -⟩ := exists_stands_of_tokens_eq htokens
    have hunknown : ∀ c, Command.parse name ≠ .ok c := by
      intro c hc
      rw [hname] at hc
      cases hc
    refine ⟨name, ⟨before, after, hcs, hstands, hunknown, ?_⟩,
      Command.parse_eq_error hstands.solid hname⟩
    intro b n a hb hn hlt
    obtain ⟨between, rfl, hbetween⟩ := hn.exists_between hstands (hb.symm.trans hcs) hlt
    exact hahead n (by rw [hbetween.tokens_eq]; simp)
  · rintro ⟨name, ⟨before, after, hcs, hstands, hunknown, hfirst⟩, rfl⟩
    refine ⟨tokens before, name, tokens after, by rw [hcs, hstands.tokens_eq], ?_, fun n hn => ?_⟩
    · cases hname : Command.parse name with
      | ok c => exact absurd hname (hunknown c)
      | error f => rw [Command.parse_eq_error hstands.solid hname]
    · obtain ⟨ahead, behind, htokens⟩ := List.append_of_mem hn
      obtain ⟨b, between, rfl, hb, -, -⟩ := exists_stands_of_tokens_eq htokens
      have hlength : 0 < n.length := List.length_pos_iff.mpr hb.ne_nil
      refine hfirst b n (between ++ name ++ after) (by simp [hcs]) (hb.append hstands) ?_
      simp only [List.length_append]
      omega

/-- Texts with a separator between them are read one after the other. -/
theorem parse_append {s : Char} (hs : isSeparator s = true) (a b : String) :
    parse (a ++ String.singleton s ++ b) = do return (← parse a) ++ (← parse b) := by
  have hlist : (a ++ String.singleton s ++ b).toList = a.toList ++ s :: b.toList := by simp
  rw [parse, hlist, tokens_append_cons hs, List.mapM_append]
  rfl

end Program

/-! ## Ways to write a program -/

namespace Command

/-- A name is a key in letters of either case, with underscores and hyphens anywhere. -/
inductive Spells : List Char → List Char → Prop where
  | nil : Spells [] []
  | letter {k c : Char} {key name : List Char} (hc : c = k ∨ c = k.toUpper) (h : Spells key name) :
      Spells (k :: key) (c :: name)
  | mark {c : Char} {key name : List Char} (hc : c = '_' ∨ c = '-') (h : Spells key name) :
      Spells key (c :: name)

/-- A name that spells one of the keys of a command. -/
def IsSpelling (c : Command) (name : List Char) : Prop :=
  ∃ key ∈ c.keys, Spells key.toList name

/-- The letters that the keys of commands are made of. -/
def alphabet : List Char := "abcdefghijklmnopqrstuvwxyz".toList

theorem keys_subset_alphabet (c : Command) : ∀ key ∈ c.keys, ∀ k ∈ key.toList, k ∈ alphabet := by
  have hall : c.keys.all (fun key => key.toList.all fun k => alphabet.contains k) = true := by
    cases c <;> decide
  intro key hkey k hk
  have hkeys := List.all_eq_true.mp hall key hkey
  exact List.contains_iff_mem.mp (List.all_eq_true.mp hkeys k hk)

/-- What is needed of a letter: in either case it is kept, lowered to itself, and no separator. -/
theorem of_mem_alphabet : ∀ k ∈ alphabet, ∀ c ∈ [k, k.toUpper],
    isFiller c = false ∧ Text.lower c = k ∧ Program.isSeparator c = false := by
  -- the list is run through, not the type of all characters
  have hall : alphabet.all (fun k => [k, k.toUpper].all fun c =>
      decide (isFiller c = false ∧ Text.lower c = k ∧ Program.isSeparator c = false)) = true := by
    decide +kernel
  intro k hk c hc
  exact of_decide_eq_true (List.all_eq_true.mp (List.all_eq_true.mp hall k hk) c hc)

theorem Spells.solid {key name : List Char} (h : Spells key name) (hkey : ∀ k ∈ key, k ∈ alphabet) :
    ∀ c ∈ name, Program.isSeparator c = false := by
  induction h with
  | nil => simp
  | @letter k c key name hc _ ih =>
    obtain ⟨hk, hkey⟩ := List.forall_mem_cons.mp hkey
    have hc := of_mem_alphabet k hk c (by simpa using hc)
    exact List.forall_mem_cons.mpr ⟨hc.2.2, ih hkey⟩
  | @mark c key name hc _ ih =>
    refine List.forall_mem_cons.mpr ⟨?_, ih hkey⟩
    rcases hc with rfl | rfl <;> decide

theorem Spells.keyOf_eq {key name : List Char} (h : Spells key name)
    (hkey : ∀ k ∈ key, k ∈ alphabet) : keyOf name = String.ofList key := by
  unfold keyOf
  congr 1
  induction h with
  | nil => rfl
  | @letter k c key name hc _ ih =>
    obtain ⟨hk, hkey⟩ := List.forall_mem_cons.mp hkey
    obtain ⟨hkept, hlower, -⟩ := of_mem_alphabet k hk c (by simpa using hc)
    simp [hkept, hlower, ih hkey]
  | @mark c key name hc _ ih =>
    have hfiller : isFiller c = true := by
      rcases hc with rfl | rfl <;> rfl
    simp [hfiller, ih hkey]

theorem ofKey?_of_mem_keys (c : Command) : ∀ key ∈ c.keys, ofKey? key = some c := by
  cases c <;> decide

theorem IsSpelling.solid {c : Command} {name : List Char} (h : c.IsSpelling name) :
    ∀ d ∈ name, Program.isSeparator d = false := by
  obtain ⟨key, hkey, hspells⟩ := h
  exact hspells.solid (c.keys_subset_alphabet key hkey)

theorem IsSpelling.ne_nil {c : Command} {name : List Char} (h : c.IsSpelling name) : name ≠ [] := by
  obtain ⟨key, hkey, hspells⟩ := h
  have hne : ∀ key ∈ c.keys, key.toList ≠ [] := by cases c <;> decide
  rintro rfl
  cases hspells' : key.toList with
  | nil => exact hne key hkey hspells'
  | cons k ks =>
    rw [hspells'] at hspells
    cases hspells

theorem IsSpelling.parse_eq {c : Command} {name : List Char} (h : c.IsSpelling name) :
    parse name = .ok c := by
  have hsolid := h.solid
  obtain ⟨key, hkey, hspells⟩ := h
  rw [parse, trim_solid hsolid, hspells.keyOf_eq (c.keys_subset_alphabet key hkey),
    String.ofList_toList, c.ofKey?_of_mem_keys key hkey]

end Command

namespace Program

/-- The texts that a program can be written as: its commands in any spelling, with separators between
them, and perhaps before the first and behind the last. -/
inductive Renders : Program → List Char → Prop where
  | nil {gap : List Char} (hgap : ∀ c ∈ gap, isSeparator c = true) : Renders [] gap
  | last {gap name : List Char} {c : Command} (hgap : ∀ c ∈ gap, isSeparator c = true)
      (hname : c.IsSpelling name) : Renders [c] (gap ++ name)
  | cons {gap name rest : List Char} {s : Char} {c : Command} {p : Program}
      (hgap : ∀ c ∈ gap, isSeparator c = true) (hname : c.IsSpelling name)
      (hs : isSeparator s = true) (h : Renders p rest) : Renders (c :: p) (gap ++ name ++ s :: rest)

theorem Renders.mapM_tokens {p : Program} {cs : List Char} (h : Renders p cs) :
    (tokens cs).mapM Command.parse = .ok p := by
  induction h with
  | nil hgap => rw [tokens_gap hgap]; rfl
  | last hgap hname =>
    rw [tokens_gap_append hgap, tokens_solid hname.ne_nil hname.solid, List.mapM_cons, hname.parse_eq]
    rfl
  | cons hgap hname hs _ ih =>
    rw [tokens_append_cons hs, tokens_gap_append hgap, tokens_solid hname.ne_nil hname.solid,
      List.singleton_append, List.mapM_cons, hname.parse_eq, ih]
    rfl

/-- **Reading a program.** Texts with a separator between them are read one after the other, and if
one of them cannot be read, the first such is to blame. A failure always reports the first name in the
text that is no command, as it is written. A list of commands is read from every text that it can be
written as. -/
theorem reading_of_texts :
    (∀ (a b : String) (s : Char), isSeparator s = true →
      (∀ p q, parse a = .ok p → parse b = .ok q →
        parse (a ++ String.singleton s ++ b) = .ok (p ++ q)) ∧
      (∀ f, parse a = .error f → parse (a ++ String.singleton s ++ b) = .error f) ∧
      (∀ p f, parse a = .ok p → parse b = .error f →
        parse (a ++ String.singleton s ++ b) = .error f)) ∧
    (∀ (text : String) (f : Failure), parse text = .error f ↔
      ∃ name, IsFirstUnknown text.toList name ∧ f = .unknownCommand (String.ofList name)) ∧
    (∀ (p : Program) (cs : List Char), Renders p cs → parse (String.ofList cs) = .ok p) := by
  refine ⟨fun a b s hs => ⟨fun p q ha hb => ?_, fun f ha => ?_, fun p f ha hb => ?_⟩,
    fun text f => parse_eq_error_iff, fun p cs h => ?_⟩
  · rw [parse_append hs, ha, hb]
    rfl
  · rw [parse_append hs, ha]
    rfl
  · rw [parse_append hs, ha, hb]
    rfl
  · rw [parse, String.toList_ofList, h.mapM_tokens]

/-- Separators at both ends and between, marks inside and around, a token of marks only, and two
unknown names, of which the first is reported. -/
theorem reading_of_texts_marks :
    isSeparator '\u3000' = true ∧ parse ",fWd\t" = .ok [.forward] ∧
    parse "-- wait jump" = .error (.unknownCommand "--") ∧
    parse (",fWd\t" ++ String.singleton '\u3000' ++ "-- wait jump") =
      .error (.unknownCommand "--") ∧
    Renders [.turnLeft, .wait]
      (" ".toList ++ "_Turn--LEFT-".toList ++ '\u00a0' :: ([','] ++ "W".toList)) ∧
    parse (String.ofList
      (" ".toList ++ "_Turn--LEFT-".toList ++ '\u00a0' :: ([','] ++ "W".toList))) =
      .ok [.turnLeft, .wait] := by
  have hs : isSeparator '\u3000' = true := by decide
  have hfirst : parse ",fWd\t" = .ok [.forward] := by rfl
  have hsecond : parse "-- wait jump" = .error (.unknownCommand "--") := by rfl
  have hturn : Command.turnLeft.IsSpelling "_Turn--LEFT-".toList :=
    ⟨"turnleft", by decide, .mark (by decide) <| .letter (by decide) <| .letter (by decide) <|
      .letter (by decide) <| .letter (by decide) <| .mark (by decide) <| .mark (by decide) <|
      .letter (by decide) <| .letter (by decide) <| .letter (by decide) <| .letter (by decide) <|
      .mark (by decide) .nil⟩
  have hwait : Command.wait.IsSpelling "W".toList :=
    ⟨"w", by decide, .letter (by decide) .nil⟩
  have hrenders : Renders [.turnLeft, .wait]
      (" ".toList ++ "_Turn--LEFT-".toList ++ '\u00a0' :: ([','] ++ "W".toList)) :=
    .cons (List.all_eq_true.mp (by decide)) hturn (by decide)
      (.last (List.all_eq_true.mp (by decide)) hwait)
  obtain ⟨happend, -, hread⟩ := reading_of_texts
  obtain ⟨-, -, hfails⟩ := happend ",fWd\t" "-- wait jump" '\u3000' hs
  exact ⟨hs, hfirst, hsecond, hfails _ _ hfirst hsecond, hrenders, hread _ _ hrenders⟩

end Program

end Seahorse
