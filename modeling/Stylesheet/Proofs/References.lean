import Stylesheet.Proofs.Headers

/-!
# References to the enclosing path

In the text of a nested selector an `&` stands for the path around the block. One reading of that is
textual: write the header of the enclosing path in the place of every `&`, and read the result
(`substitute`). The header of the nested block agrees with this reading in exactly one case: there is
one `&` outside brackets, and no sign in front of it (`Path.header_combine_eq_substitute_iff`). A sign
in front of an `&` is lost, and of several `&` only one stands for the path.

* **What a scan prints.** The text of the elements read so far grows by one character at a time
  (`Scan.printed_step`); which element a character belongs to plays no part.
* **Two scans side by side.** The scan of a text and that of the text with headers written out print
  the same, but for the headers (`Scan.Aligned`). So with one `&` both texts are known in full
  (`Path.toCss_extend_of_single`, `Scan.exists_of_single`).
* **Ink.** With several `&` it is enough to count the characters that are no blanks: the text with
  headers written out has that of the header once for each `&`, the header of the block has it once
  (`Scan.Aligned.ink_le`, `Path.ink_extend`).
-/

namespace Stylesheet

/-! ## The textual reading

The specification, in terms of characters. An `&` in brackets is text like any other, so brackets are
counted here as they are in scanning. -/

/-- The text with `header` in the place of every `&` outside brackets. The count of open brackets starts
at `depth`. -/
def substitute (header : List Char) : (depth : Nat) → List Char → List Char
  | _, [] => []
  | depth, c :: rest =>
    if depth = 0 ∧ c = '&' then header ++ substitute header 0 rest
    else c :: substitute header (bracketDepth depth c) rest

/-- The character is a combinator sign. -/
def IsSign (c : Char) : Prop :=
  c = '>' ∨ c = '+' ∨ c = '~'

instance (c : Char) : Decidable (IsSign c) :=
  inferInstanceAs (Decidable (_ ∨ _ ∨ _))

/-- Every `&` outside brackets is the first character or stands after a blank or a sign. The text is read
after the character `previous`, with `depth` brackets open. -/
def Detached : (previous : Option Char) → (depth : Nat) → List Char → Prop
  | _, _, [] => True
  | previous, depth, c :: rest =>
    (depth = 0 → c = '&' → ∀ p ∈ previous, Text.isBlank p = true ∨ IsSign p) ∧
      Detached (some c) (bracketDepth depth c) rest

instance Detached.decidable : (previous : Option Char) → (depth : Nat) → (cs : List Char) →
    Decidable (Detached previous depth cs)
  | _, _, [] => isTrue trivial
  | previous, depth, c :: rest =>
    -- the one character in question is known, so it is not to be looked for among all characters
    have : Decidable (∀ p ∈ previous, Text.isBlank p = true ∨ IsSign p) :=
      Option.decidableForallMem previous
    have := Detached.decidable (some c) (bracketDepth depth c) rest
    inferInstanceAs (Decidable (_ ∧ _))

/-- The combinator of the sign in which a text ends, blanks aside. -/
def endingSign? (cs : List Char) : Option Combinator :=
  match cs.reverse.dropWhile Text.isBlank with
  | '>' :: _ => some .child
  | '+' :: _ => some .adjacent
  | '~' :: _ => some .sibling
  | _ => none

/-- A blank at the end hides no sign. -/
lemma endingSign?_snoc_of_isBlank (cs : List Char) {c : Char} (h : Text.isBlank c = true) :
    endingSign? (cs ++ [c]) = endingSign? cs := by
  rw [endingSign?, List.reverse_concat, List.dropWhile_cons, if_pos h, endingSign?]

/-- A text that ends in neither a blank nor a sign ends in no sign. -/
lemma endingSign?_of_getLast? {cs : List Char} {c : Char} (hc : cs.getLast? = some c)
    (hblank : Text.isBlank c = false) (hsign : ¬IsSign c) : endingSign? cs = none := by
  obtain ⟨rest, rfl⟩ := List.getLast?_eq_some_iff.mp hc
  rw [endingSign?, List.reverse_concat, List.dropWhile_cons, if_neg (by simp [hblank])]
  split
  · next h => cases h; exact absurd (.inl rfl) hsign
  · next h => cases h; exact absurd (.inr (.inl rfl)) hsign
  · next h => cases h; exact absurd (.inr (.inr rfl)) hsign
  · rfl

/-- What is substituted in two texts is substituted in the second one behind the brackets that the first
one leaves open. -/
lemma substitute_append (header : List Char) (depth : Nat) (a b : List Char) :
    substitute header depth (a ++ b) =
      substitute header depth a ++ substitute header (a.foldl bracketDepth depth) b := by
  induction a generalizing depth with
  | nil => rfl
  | cons c a ih =>
    rw [List.cons_append, substitute, substitute, List.foldl_cons, ih, ih]
    split
    · next h =>
      obtain ⟨rfl, rfl⟩ := h
      rw [List.append_assoc]
      rfl
    · rw [List.cons_append]

/-- Without `&` outside brackets there is nothing to write out. -/
lemma substitute_of_notMem {header : List Char} {depth : Nat} {cs : List Char}
    (h : ∀ c ∈ outsideBrackets depth cs, c ≠ '&') : substitute header depth cs = cs := by
  induction cs generalizing depth with
  | nil => rfl
  | cons c cs ih =>
    obtain ⟨hc, hrest⟩ := forall_outsideBrackets_cons.mp h
    have hcond : ¬(depth = 0 ∧ c = '&') := fun hc' => hc hc'.1 hc'.2
    rw [substitute, if_neg hcond, ih hrest]

/-- The first `&` outside brackets. -/
lemma exists_first_reference {depth : Nat} {cs : List Char} (h : '&' ∈ outsideBrackets depth cs) :
    ∃ before after, cs = before ++ '&' :: after ∧ before.foldl bracketDepth depth = 0 ∧
      ∀ c ∈ outsideBrackets depth before, c ≠ '&' := by
  induction cs generalizing depth with
  | nil => cases h
  | cons c cs ih =>
    by_cases hfirst : depth = 0 ∧ c = '&'
    · obtain ⟨rfl, rfl⟩ := hfirst
      exact ⟨[], cs, rfl, rfl, by simp [outsideBrackets]⟩
    · have hrest : '&' ∈ outsideBrackets (bracketDepth depth c) cs := by
        rw [outsideBrackets] at h
        split at h
        · next hdepth =>
          rcases List.mem_cons.mp h with hc | h
          · exact absurd ⟨hdepth, hc.symm⟩ hfirst
          · exact h
        · exact h
      obtain ⟨before, after, rfl, hdepth, hbefore⟩ := ih hrest
      refine ⟨c :: before, after, rfl, hdepth, ?_⟩
      exact forall_outsideBrackets_cons.mpr ⟨fun hzero hc => hfirst ⟨hzero, hc⟩, hbefore⟩

/-- There is only one first `&`. -/
lemma first_reference_unique {before before' after after' : List Char}
    (h : before ++ '&' :: after = before' ++ '&' :: after')
    (hdepth : openBrackets before = 0) (hdepth' : openBrackets before' = 0)
    (hbefore : ∀ c ∈ outsideBrackets 0 before, c ≠ '&')
    (hbefore' : ∀ c ∈ outsideBrackets 0 before', c ≠ '&') : before = before' ∧ after = after' := by
  -- if one of the texts before it were longer, it would go on with the `&` of the other
  have key : ∀ {a b rest : List Char}, openBrackets a = 0 → (∀ c ∈ outsideBrackets 0 (a ++ b), c ≠ '&') →
      '&' :: rest = b ++ '&' :: after ∨ '&' :: rest = b ++ '&' :: after' → b = [] := by
    intro a b rest ha hab hb
    cases b with
    | nil => rfl
    | cons c b =>
      have hc : c = '&' := by
        rcases hb with hb | hb <;> cases hb <;> rfl
      have ha' : a.foldl bracketDepth 0 = 0 := ha
      rw [outsideBrackets_append, ha', outsideBrackets, if_pos rfl, hc] at hab
      exact absurd rfl (hab '&' (by simp))
  rcases List.append_eq_append_iff.mp h with ⟨x, rfl, hx⟩ | ⟨x, rfl, hx⟩
  · obtain rfl := key hdepth hbefore' (.inr hx)
    simpa using hx
  · obtain rfl := key hdepth' hbefore (.inl hx)
    simpa using hx.symm

/-! ## Ink

Blanks come and go in trimming and in printing. The number of other characters is what can be compared
without looking at them. -/

/-- The number of characters that are no blanks. -/
def ink (cs : List Char) : Nat :=
  cs.countP fun c => !Text.isBlank c

/-- There is no ink in no text. -/
@[simp] lemma ink_nil : ink [] = 0 :=
  rfl

/-- Ink adds up. -/
@[simp] lemma ink_append (a b : List Char) : ink (a ++ b) = ink a + ink b :=
  List.countP_append

/-- Blanks in front have no ink. -/
lemma ink_dropWhile (cs : List Char) : ink (cs.dropWhile Text.isBlank) = ink cs := by
  induction cs with
  | nil => rfl
  | cons c cs ih =>
    rw [List.dropWhile_cons]
    split
    · next hblank => rw [ih, ink, ink, List.countP_cons_of_neg (by simp [hblank])]
    · rfl

/-- Blanks at the ends have no ink. -/
lemma ink_trimChars (cs : List Char) : ink (Text.trimChars cs) = ink cs := by
  have hreverse : ∀ l : List Char, ink l.reverse = ink l := fun l => List.countP_reverse
  rw [Text.trimChars, hreverse, ink_dropWhile, hreverse, ink_dropWhile]

/-- An element has ink. -/
lemma Solid.ink_pos {v : List Char} (h : Solid v) : 0 < ink v := by
  induction h with
  | @single c hc =>
    have hblank : Text.isBlank c = false := Bool.not_eq_true _ |>.mp fun hblank => hc (.inl hblank)
    simp [ink, hblank]
  | snoc _ _ ih =>
    rw [ink_append]
    omega

/-- A sign that is pending has ink. -/
lemma ink_of_endingSign? {cs : List Char} {k : Combinator} (h : endingSign? cs = some k) :
    0 < ink k.toCss.toList := by
  unfold endingSign? at h
  split at h <;> cases h <;> decide

/-- A space in front is trimmed. -/
lemma trimChars_cons_blank (cs : List Char) : Text.trimChars (' ' :: cs) = Text.trimChars cs := by
  rw [Text.trimChars, List.dropWhile_cons, if_pos (by decide), Text.trimChars]

/-! ## The text of elements

Scans, selectors and paths all hold lists of elements, so their texts are compared as texts of such lists.
-/

/-- Nothing is printed for a compound. -/
@[simp] lemma Combinator.toList_toCss_compound : Combinator.compound.toCss.toList = [] :=
  rfl

/-- Nothing is printed for a reference to the parent. -/
@[simp] lemma Combinator.toList_toCss_parent : Combinator.parent.toCss.toList = [] :=
  rfl

/-- A space is printed for a descendant. -/
@[simp] lemma Combinator.toList_toCss_descendant : Combinator.descendant.toCss.toList = [' '] := by
  decide

/-- The text of elements one after another. -/
def elementsText (l : List Element) : List Char :=
  l.flatMap fun e => e.toCss.toList

/-- No elements have no text. -/
@[simp] lemma elementsText_nil : elementsText [] = [] :=
  rfl

/-- The text of the first element comes first. -/
@[simp] lemma elementsText_cons (e : Element) (l : List Element) :
    elementsText (e :: l) = e.combinator.toCss.toList ++ e.value.toList ++ elementsText l := by
  rw [elementsText, List.flatMap_cons, Element.toList_toCss, elementsText]

/-- The text of two lists of elements is that of the first and then that of the second. -/
@[simp] lemma elementsText_append (a b : List Element) :
    elementsText (a ++ b) = elementsText a ++ elementsText b :=
  List.flatMap_append

namespace Selector

/-- The text of a selector is that of its elements. -/
lemma toList_toCss_eq (s : Selector) : s.toCss.toList = elementsText s.elements :=
  toList_toCss s

/-- To become a selector, the elements get at most a blank in front. -/
lemma trimChars_toCss_ofElements (l : List Element) :
    Text.trimChars (ofElements l).toCss.toList = Text.trimChars (elementsText l) := by
  rw [toList_toCss_eq]
  unfold ofElements
  split
  · next value rest => simpa using trimChars_cons_blank (value.toList ++ elementsText rest)
  · rfl

/-- In messages, the text of a selector is trimmed. -/
lemma toList_toSource (s : Selector) : s.toSource.toList = Text.trimChars s.toCss.toList := by
  rw [toSource, Text.trim, String.toList_ofList]

end Selector

/-! ## What a scan prints

The elements that a scan has completed, and the one at hand, already have a text. It grows from left to
right and no character of it is taken back. -/

namespace Scan

variable {s t : Scan} {c : Char}

/-- Whether there is an element at hand. -/
def inHand (s : Scan) : Bool :=
  s.started || !s.value.isEmpty

/-- The text of the elements read so far, with the one at hand. -/
def printed (s : Scan) : List Char :=
  elementsText s.flush.elements

/-- An element at hand is completed. -/
lemma flush_of_inHand (h : s.inHand = true) :
    s.flush = { s with
      elements := s.elements ++ [⟨s.combinator, String.ofList s.value⟩]
      combinator := .compound
      value := []
      started := false } := by
  have h : (s.started || !s.value.isEmpty) = true := h
  rw [flush, if_pos h]

/-- Without an element at hand there is nothing to complete. -/
lemma flush_of_not_inHand (h : s.inHand = false) : s.flush = s := by
  have h : ¬(s.started || !s.value.isEmpty) = true := by
    rw [Bool.not_eq_true]
    exact h
  rw [flush, if_neg h]

/-- Without an element at hand there are no characters of it. -/
lemma value_of_not_inHand (h : s.inHand = false) : s.value = [] := by
  simp only [inHand, Bool.or_eq_false_iff] at h
  simpa using h.2

/-- After an element is completed, none is at hand. -/
lemma inHand_flush (s : Scan) : s.flush.inHand = false := by
  cases h : s.inHand with
  | true =>
    rw [flush_of_inHand h]
    rfl
  | false => rw [flush_of_not_inHand h, h]

/-- The element at hand is printed last. -/
lemma printed_of_inHand (h : s.inHand = true) :
    s.printed = elementsText s.elements ++ (s.combinator.toCss.toList ++ s.value) := by
  rw [printed, flush_of_inHand h]
  simp

/-- Without an element at hand, the completed ones are printed. -/
lemma printed_of_not_inHand (h : s.inHand = false) : s.printed = elementsText s.elements := by
  rw [printed, flush_of_not_inHand h]

/-- A blank or a sign is not printed, nor is an `&`, which puts an element in hand. The element before is
completed, which prints nothing new. -/
lemma printed_step_separates (hdepth : s.depth = 0) (hc : Separates c) :
    (s.step c).printed = s.printed ∧ (s.step c).inHand = decide (c = '&') := by
  have hrest : ∀ k p, printed { s.flush with combinator := k, previous := p } = s.printed ∧
      inHand { s.flush with combinator := k, previous := p } = false := by
    intro k p
    have hflush : inHand { s.flush with combinator := k, previous := p } = false := inHand_flush s
    exact ⟨printed_of_not_inHand hflush, hflush⟩
  rcases hc with hblank | rfl | rfl | rfl | rfl
  · have hne : c ≠ '&' := by
      rintro rfl
      exact absurd hblank (by decide)
    rw [decide_eq_false hne, step_of_blank hdepth hblank, separate]
    dsimp only
    split
    · exact hrest .descendant (some c)
    · exact hrest s.flush.combinator (some c)
  · rw [step, if_neg (by omega)]
    exact hrest .child (some '>')
  · rw [step, if_neg (by omega)]
    exact hrest .adjacent (some '+')
  · rw [step, if_neg (by omega)]
    exact hrest .sibling (some '~')
  · rw [step, if_neg (by omega)]
    refine ⟨?_, rfl⟩
    rw [printed_of_inHand rfl]
    show elementsText s.flush.elements ++ ([] ++ s.flush.value) = _
    rw [value_of_not_inHand (inHand_flush s), List.append_nil, List.append_nil, printed]

/-- **Every other character is printed**, the first one of an element behind the sign that attaches
it. -/
lemma printed_step (hc : s.depth = 0 → ¬Separates c) :
    (s.step c).printed =
        s.printed ++ ((if s.inHand then [] else s.combinator.toCss.toList) ++ [c]) ∧
      (s.step c).inHand = true := by
  by_cases hcont : 0 < s.depth ∨ ¬Separates c ∧ ¬Begins s.previous c
  · rw [step_of_continues hcont]
    refine ⟨?_, by simp [inHand]⟩
    rw [printed_of_inHand (by simp [inHand])]
    cases hin : s.inHand with
    | true => simp [printed_of_inHand hin]
    | false => simp [printed_of_not_inHand hin, value_of_not_inHand hin]
  · have hdepth : s.depth = 0 := Nat.eq_zero_of_not_pos fun hpos => hcont (.inl hpos)
    have hc := hc hdepth
    have hbegins : Begins s.previous c := by
      by_contra hbegins
      exact hcont (.inr ⟨hc, hbegins⟩)
    by_cases hvalue : s.value = []
    · rw [step_of_value_eq_nil hvalue hdepth hc]
      refine ⟨?_, by simp [inHand]⟩
      rw [printed_of_inHand (by simp [inHand])]
      cases hin : s.inHand with
      | true => simp [printed_of_inHand hin, hvalue]
      | false => simp [printed_of_not_inHand hin]
    · rw [step_of_begins hvalue hdepth hbegins]
      refine ⟨?_, by simp [inHand]⟩
      have hin : s.inHand = true := by simp [inHand, hvalue]
      rw [printed_of_inHand (by simp [inHand]), printed_of_inHand hin]
      simp [hin]

/-! ## What is pending

A sign is not printed when it is read, but with the next element. Between elements a scan therefore
remembers one sign, the last that was read, and that is the sign in which the text so far ends. -/

/-- The scan has read `cs`: what is known between elements. -/
structure Reads (cs : List Char) (s : Scan) : Prop where
  /-- The character read last. -/
  previous : s.previous = cs.getLast?
  /-- Brackets are within an element. -/
  nested : 0 < s.depth → s.inHand = true
  /-- Blanks and signs end an element. -/
  resting : s.depth = 0 → (∀ p ∈ s.previous, Text.isBlank p = true ∨ IsSign p) → s.inHand = false
  /-- The next element is attached by the sign that was read, if any. -/
  pending : s.inHand = false → s.combinator =
    (endingSign? cs).getD (if s.elements.isEmpty then .compound else .descendant)

/-- At the start nothing has been read. -/
lemma reads_empty : Reads [] {} :=
  ⟨rfl, nofun, fun _ _ => rfl, fun _ => rfl⟩

/-- At hand outside brackets, an element has been read to a character of its own. -/
lemma Reads.endingSign?_of_inHand {cs : List Char} (h : s.Reads cs) (hdepth : s.depth = 0)
    (hin : s.inHand = true) : endingSign? cs = none := by
  have hlast : ¬∀ p ∈ s.previous, Text.isBlank p = true ∨ IsSign p := by
    intro hp
    rw [h.resting hdepth hp] at hin
    cases hin
  simp only [not_forall, not_or] at hlast
  obtain ⟨p, hp, hblank, hsign⟩ := hlast
  rw [h.previous] at hp
  exact endingSign?_of_getLast? hp (Bool.not_eq_true _ |>.mp hblank) hsign

/-- After a blank, the next element is attached by the sign that the text ends in, and without one as a
descendant if there is an element before it. -/
lemma Reads.step_blank {cs : List Char} (h : s.Reads cs) (hdepth : s.depth = 0)
    (hc : Text.isBlank c = true) :
    (s.step c).combinator =
      (endingSign? (cs ++ [c])).getD (if (s.step c).elements.isEmpty then .compound else .descendant) := by
  rw [step_of_blank hdepth hc, endingSign?_snoc_of_isBlank cs hc, separate]
  cases hin : s.inHand with
  | true =>
    rw [flush_of_inHand hin, h.endingSign?_of_inHand hdepth hin]
    simp
  | false =>
    have hpending := h.pending hin
    rw [flush_of_not_inHand hin]
    dsimp only
    cases hsign : endingSign? cs with
    | none =>
      rw [hsign] at hpending
      cases helements : s.elements.isEmpty <;> simp_all
    | some k =>
      have hk : k ≠ .compound := by
        rintro rfl
        unfold endingSign? at hsign
        split at hsign <;> cases hsign
      rw [hsign, Option.getD_some] at hpending
      simp [hpending, hk]

/-- A sign attaches the next element. -/
lemma step_isSign (hdepth : s.depth = 0) (hc : IsSign c) (cs : List Char) :
    ∃ k, endingSign? (cs ++ [c]) = some k ∧
      s.step c = { s.flush with combinator := k, previous := some c } := by
  have hending : endingSign? (cs ++ [c]) = endingSign? [c] := by
    have hblank : Text.isBlank c = false := by
      rcases hc with rfl | rfl | rfl <;> decide
    rw [endingSign?, List.reverse_concat, List.dropWhile_cons, if_neg (by simp [hblank]), endingSign?,
      List.reverse_singleton, List.dropWhile_cons, if_neg (by simp [hblank])]
    rcases hc with rfl | rfl | rfl <;> rfl
  rw [hending, step, if_neg (by omega)]
  rcases hc with rfl | rfl | rfl
  · exact ⟨.child, by decide, rfl⟩
  · exact ⟨.adjacent, by decide, rfl⟩
  · exact ⟨.sibling, by decide, rfl⟩

/-- One more character has been read. A blank or a sign outside brackets leaves no element at hand and
settles how the next one is attached; an `&` and any other character put one in hand. -/
lemma Reads.step {cs : List Char} (h : s.Reads cs) (c : Char) : (s.step c).Reads (cs ++ [c]) := by
  have hprevious : (s.step c).previous = some c := rfl
  have hlast : (s.step c).previous = (cs ++ [c]).getLast? := by rw [hprevious, List.getLast?_concat]
  by_cases hsep : s.depth = 0 ∧ Separates c
  · obtain ⟨hdepth, hc⟩ := hsep
    have hdepth' : (s.step c).depth = 0 := by rw [depth_step, bracketDepth_of_separates hc, hdepth]
    have hin := (printed_step_separates hdepth hc).2
    refine ⟨hlast, fun hpos => by omega, ?_, ?_⟩
    · intro _ hp
      rw [hin]
      refine decide_eq_false ?_
      rintro rfl
      exact absurd (hp '&' rfl) (by decide)
    · intro hin'
      rcases hc with hblank | hsign | hsign | hsign | rfl
      · exact h.step_blank hdepth hblank
      · obtain ⟨k, hk, hstep⟩ := step_isSign hdepth (.inl hsign) cs
        rw [hstep, hk, Option.getD_some]
      · obtain ⟨k, hk, hstep⟩ := step_isSign hdepth (.inr (.inl hsign)) cs
        rw [hstep, hk, Option.getD_some]
      · obtain ⟨k, hk, hstep⟩ := step_isSign hdepth (.inr (.inr hsign)) cs
        rw [hstep, hk, Option.getD_some]
      · rw [hin] at hin'
        cases hin'
  · have hin : (s.step c).inHand = true := (printed_step fun hdepth hc => hsep ⟨hdepth, hc⟩).2
    refine ⟨hlast, fun _ => hin, ?_, fun hin' => ?_⟩
    · -- a blank or a sign belongs to an element only within brackets, and leaves them open
      intro hdepth' hp
      have hc : Separates c := by
        rcases hp c hprevious with hblank | hsign | hsign | hsign
        · exact .inl hblank
        · exact .inr (.inl hsign)
        · exact .inr (.inr (.inl hsign))
        · exact .inr (.inr (.inr (.inl hsign)))
      rw [depth_step, bracketDepth_of_separates hc] at hdepth'
      exact absurd ⟨hdepth', hc⟩ hsep
    · rw [hin] at hin'
      cases hin'

/-- All characters of a text have been read after it was scanned. -/
lemma Reads.foldl_step {cs : List Char} (h : s.Reads cs) (rest : List Char) :
    (rest.foldl Scan.step s).Reads (cs ++ rest) := by
  induction rest generalizing s cs with
  | nil => simpa using h
  | cons c rest ih => simpa using ih (h.step c)

/-- Between elements, an `&` is not pending. -/
lemma Reads.combinator_ne_parent {cs : List Char} (h : s.Reads cs) (hin : s.inHand = false) :
    s.combinator ≠ .parent := by
  rw [h.pending hin]
  unfold endingSign?
  split
  · exact nofun
  · exact nofun
  · exact nofun
  · rw [Option.getD_none]
    split <;> simp

/-! ## Two scans side by side

The scan of a text and the scan of the text with headers written out need not have the same elements. It
is enough that both are at the same point: in an element or between two, with the same sign pending. -/

/-- Two scans that print the same from here on. -/
structure Aligned (s t : Scan) : Prop where
  /-- As many brackets are open. -/
  depth : s.depth = t.depth
  /-- Both have an element at hand, or none has. -/
  inHand : s.inHand = t.inHand
  /-- Between elements, the next one is attached in the same way. -/
  resting : s.inHand = false →
    s.combinator = t.combinator ∧ s.elements.isEmpty = t.elements.isEmpty

/-- Aligned scans complete their elements alike. -/
lemma Aligned.flush (h : Aligned s t) :
    s.flush.combinator = t.flush.combinator ∧ s.flush.elements.isEmpty = t.flush.elements.isEmpty := by
  cases hin : s.inHand with
  | true =>
    rw [flush_of_inHand hin, flush_of_inHand (h.inHand ▸ hin)]
    have hsome : ∀ (l : List Element) (e : Element), (l ++ [e]).isEmpty = false := by simp
    exact ⟨rfl, (hsome _ _).trans (hsome _ _).symm⟩
  | false =>
    rw [flush_of_not_inHand hin, flush_of_not_inHand (h.inHand ▸ hin)]
    exact h.resting hin

/-- After a separator that is no `&`. -/
lemma Aligned.step_separates (h : Aligned s t) (hdepth : s.depth = 0) (hc : Separates c)
    (hne : c ≠ '&') : (s.step c).combinator = (t.step c).combinator ∧
      (s.step c).elements.isEmpty = (t.step c).elements.isEmpty := by
  have hdepth' : t.depth = 0 := h.depth ▸ hdepth
  obtain ⟨hk, helements⟩ := h.flush
  have hsign : IsSign c → (s.step c).combinator = (t.step c).combinator ∧
      (s.step c).elements.isEmpty = (t.step c).elements.isEmpty := by
    intro hc
    obtain ⟨k, hk, hs⟩ := step_isSign hdepth hc []
    obtain ⟨k', hk', ht⟩ := step_isSign hdepth' hc []
    rw [hk] at hk'
    cases hk'
    rw [hs, ht]
    exact ⟨rfl, helements⟩
  rcases hc with hblank | hc | hc | hc | hc
  · rw [step_of_blank hdepth hblank, step_of_blank hdepth' hblank, separate, separate]
    dsimp only
    rw [hk, helements]
    split
    · exact ⟨rfl, helements⟩
    · exact ⟨hk, helements⟩
  · exact hsign (.inl hc)
  · exact hsign (.inr (.inl hc))
  · exact hsign (.inr (.inr hc))
  · exact absurd hc hne

/-- **A character that is no `&` outside brackets** is printed by both scans in the same way. -/
lemma Aligned.step (h : Aligned s t) (hne : s.depth = 0 → c ≠ '&') :
    Aligned (s.step c) (t.step c) ∧
      ∃ w, (s.step c).printed = s.printed ++ w ∧ (t.step c).printed = t.printed ++ w := by
  have hdepth : (s.step c).depth = (t.step c).depth := by rw [depth_step, depth_step, h.depth]
  by_cases hsep : s.depth = 0 ∧ Separates c
  · obtain ⟨hzero, hc⟩ := hsep
    obtain ⟨hs, hsHand⟩ := printed_step_separates hzero hc
    obtain ⟨ht, htHand⟩ := printed_step_separates (h.depth ▸ hzero) hc
    refine ⟨⟨hdepth, hsHand.trans htHand.symm, fun _ => h.step_separates hzero hc (hne hzero)⟩, [], ?_⟩
    rw [hs, ht, List.append_nil, List.append_nil]
    exact ⟨rfl, rfl⟩
  · have hc : s.depth = 0 → ¬Separates c := fun hzero hc => hsep ⟨hzero, hc⟩
    obtain ⟨hs, hsHand⟩ := printed_step hc
    obtain ⟨ht, htHand⟩ := printed_step (s := t) (h.depth ▸ hc)
    refine ⟨⟨hdepth, hsHand.trans htHand.symm, fun hin => ?_⟩, _, hs, ?_⟩
    · rw [hsHand] at hin
      cases hin
    · rw [ht, ← h.inHand]
      cases hin : s.inHand with
      | true => rfl
      | false => rw [(h.resting hin).1]

/-- Without `&` outside brackets, both scans print the same. -/
lemma Aligned.foldl_step (h : Aligned s t) {cs : List Char}
    (hcs : ∀ c ∈ outsideBrackets s.depth cs, c ≠ '&') :
    ∃ w, (cs.foldl Scan.step s).printed = s.printed ++ w ∧
      (cs.foldl Scan.step t).printed = t.printed ++ w := by
  induction cs generalizing s t with
  | nil => exact ⟨[], by simp⟩
  | cons c cs ih =>
    obtain ⟨hc, hrest⟩ := forall_outsideBrackets_cons.mp hcs
    obtain ⟨hstep, w, hs, ht⟩ := h.step hc
    obtain ⟨w', hs', ht'⟩ := ih hstep (by rw [depth_step]; exact hrest)
    refine ⟨w ++ w', ?_, ?_⟩
    · rw [List.foldl_cons, hs', hs, List.append_assoc]
    · rw [List.foldl_cons, ht', ht, List.append_assoc]

/-! ## Reading a header

The header in the place of an `&` is read from the state in which the `&` is met. Its first element takes
the sign that is pending there, and its last element stays at hand, as the element of the `&` does in the
other scan. -/

/-- Read between elements, the text is printed as it is, behind the sign that was pending, and its last
element stays at hand. -/
def ReadWhole (header : List Char) : Prop :=
  ∀ s : Scan, s.inHand = false → s.depth = 0 → s.combinator ≠ .parent →
    (header.foldl step s).depth = 0 ∧ (header.foldl step s).inHand = true ∧
      (header.foldl step s).printed = s.printed ++ (s.combinator.toCss.toList ++ header)

/-- A header is read whole. The first element is attached as the scan has it pending, and from there on
the texts of the elements are read as these elements, as if the scan had begun with them. -/
lemma readWhole_of_rereads {first : Element} {rest : List Element}
    (h : (Selector.mk (first :: rest)).Rereads) :
    ReadWhole (first.value.toList ++ elementsText rest) := by
  intro s hin hdepth hk
  have hstarted : s.started = false := by
    simp only [inHand, Bool.or_eq_false_iff] at hin
    exact hin.1
  -- the first element, attached as it is pending
  have hfirst : Element.Solid ⟨s.combinator, first.value⟩ :=
    ⟨(h.canonical.solid first List.mem_cons_self).value, hk⟩
  have hsolid : ∀ e ∈ ⟨s.combinator, first.value⟩ :: rest, e.Solid := by
    intro e he
    rcases List.mem_cons.mp he with rfl | he
    · exact hfirst
    · exact h.canonical.solid e (List.mem_cons_of_mem first he)
  have hjoined : (⟨s.combinator, first.value⟩ :: rest).IsChain Element.Joins := by
    obtain ⟨hjoin, hrest⟩ := List.isChain_cons.mp h.canonical.joined
    exact List.isChain_cons.mpr
      ⟨fun e he => ⟨(hjoin e he).closed, (hjoin e he).begins⟩, hrest⟩
  have hclosed : ∀ e ∈ ⟨s.combinator, first.value⟩ :: rest, openBrackets e.value.toList = 0 := by
    intro e he
    rcases List.mem_cons.mp he with rfl | he
    · exact h.closed first List.mem_cons_self
    · exact h.closed e (List.mem_cons_of_mem first he)
  obtain ⟨before, last, hall, hlast, hread⟩ := foldl_step_rest hsolid hjoined s.elements
  have hvalue := foldl_step_value hfirst (value_of_not_inHand hin) hdepth hstarted rfl
  have hrun : (first.value.toList ++ elementsText rest).foldl step s = reading before last := by
    rw [List.foldl_append]
    exact (congrArg (List.foldl step · _) hvalue).trans hread
  have hinHand : (reading before last).inHand = true := by
    simp [reading, inHand, (hsolid last hlast).value.ne_nil]
  rw [hrun]
  refine ⟨hclosed last hlast, hinHand, ?_⟩
  have htext := congrArg elementsText hall
  simp only [elementsText_append, elementsText_cons, elementsText_nil, List.append_nil] at htext
  rw [printed_of_inHand hinHand, printed_of_not_inHand hin]
  simp only [List.append_assoc] at htext ⊢
  exact htext

variable {header cs : List Char}

/-- An `&` between elements, against the header written out. -/
lemma Aligned.step_reference (h : Aligned s t) (hheader : ReadWhole header) (hreads : s.Reads cs)
    (hdepth : s.depth = 0) (hin : s.inHand = false) :
    Aligned (s.step '&') (header.foldl Scan.step t) ∧ (s.step '&').printed = s.printed ∧
      (header.foldl Scan.step t).printed = t.printed ++ (s.combinator.toCss.toList ++ header) := by
  obtain ⟨hk, -⟩ := h.resting hin
  obtain ⟨hdepth', hinHand, hprinted⟩ := hheader t (h.inHand ▸ hin) (h.depth ▸ hdepth)
    (hk ▸ hreads.combinator_ne_parent hin)
  obtain ⟨hs, hsHand⟩ := printed_step_separates (c := '&') hdepth (.inr (.inr (.inr (.inr rfl))))
  have hsHand : (s.step '&').inHand = true := hsHand
  refine ⟨⟨?_, hsHand.trans hinHand.symm, fun hin' => ?_⟩, hs, by rw [hprinted, hk]⟩
  · rw [depth_step, hdepth, hdepth']
    rfl
  · rw [hsHand] at hin'
    cases hin'

/-- What is detached stays so behind a part that was read. -/
lemma detached_foldl_step {rest : List Char} (h : Detached s.previous s.depth (cs ++ rest)) :
    Detached (cs.foldl Scan.step s).previous (cs.foldl Scan.step s).depth rest := by
  induction cs generalizing s with
  | nil => exact h
  | cons c cs ih =>
    refine ih ?_
    rw [depth_step]
    exact h.2

/-- **The text with headers written out has the ink of the header once for each `&`.** By induction on the
text: an `&` costs the second scan a whole header and the first one nothing, every other character is
printed by both or by neither. -/
lemma Aligned.ink_le (h : Aligned s t) (hheader : ReadWhole header) {done : List Char}
    (hreads : s.Reads done) (hcs : Detached s.previous s.depth cs) :
    ink (cs.foldl Scan.step s).printed + ink t.printed +
        (outsideBrackets s.depth cs).count '&' * ink header ≤
      ink ((substitute header s.depth cs).foldl Scan.step t).printed + ink s.printed := by
  induction cs generalizing s t done with
  | nil =>
    rw [outsideBrackets, substitute, List.foldl_nil, List.foldl_nil, List.count_nil]
    omega
  | cons c cs ih =>
    obtain ⟨hdetached, hrest⟩ := hcs
    rw [← depth_step] at hrest
    by_cases hc : s.depth = 0 ∧ c = '&'
    · obtain ⟨hdepth, rfl⟩ := hc
      have hin := hreads.resting hdepth (hdetached hdepth rfl)
      obtain ⟨haligned, hs, ht⟩ := h.step_reference hheader hreads hdepth hin
      have hle := ih haligned (hreads.step '&') hrest
      have hzero : (s.step '&').depth = 0 := by
        rw [depth_step, hdepth]
        rfl
      rw [hzero, hs, ht, ink_append, ink_append] at hle
      rw [substitute, if_pos ⟨hdepth, rfl⟩, hdepth, outsideBrackets, if_pos rfl, List.count_cons_self,
        Nat.add_mul, List.foldl_cons, List.foldl_append]
      have hbracket : bracketDepth 0 '&' = 0 := rfl
      rw [hbracket]
      omega
    · obtain ⟨haligned, w, hs, ht⟩ := h.step fun hdepth hc' => hc ⟨hdepth, hc'⟩
      have hle := ih haligned (hreads.step c) hrest
      have hcount : (outsideBrackets s.depth (c :: cs)).count '&' =
          (outsideBrackets (bracketDepth s.depth c) cs).count '&' := by
        rw [outsideBrackets]
        split
        · next hdepth => exact List.count_cons_of_ne fun hc' => hc ⟨hdepth, hc'⟩
        · rfl
      rw [depth_step, hs, ht, ink_append, ink_append] at hle
      rw [substitute, if_neg hc, hcount, List.foldl_cons, List.foldl_cons]
      omega

/-! ## The element of an `&`

What follows an `&` directly belongs to its element. With a single `&` this element can be told from the
others, and the selector is split there. -/

/-- After the elements `before`, the scan has read an `&`, and no other since. -/
inductive Behind (before : List Element) (s : Scan) : Prop
  /-- Its element is at hand. -/
  | atHand (helements : s.elements = before) (hk : s.combinator = .parent) (hin : s.inHand = true)
  /-- Its element is complete. -/
  | complete {value : String} {after : List Element}
      (helements : s.elements = before ++ ⟨.parent, value⟩ :: after)
      (hafter : ∀ e ∈ after, e.combinator ≠ .parent) (hk : s.combinator ≠ .parent)

/-- The element of the `&` is completed with the characters that stand behind it. -/
lemma Behind.flush {before : List Element} (h : s.Behind before) :
    ∃ value after, s.flush.elements = before ++ ⟨.parent, value⟩ :: after ∧
      ∀ e ∈ after, e.combinator ≠ .parent := by
  cases h with
  | atHand helements hk hin =>
    rw [flush_of_inHand hin]
    exact ⟨String.ofList s.value, [], by rw [helements, hk], by simp⟩
  | @complete value after helements hafter hk =>
    cases hin : s.inHand with
    | true =>
      rw [flush_of_inHand hin]
      refine ⟨value, after ++ [⟨s.combinator, String.ofList s.value⟩], by simp [helements], ?_⟩
      intro e he
      rcases List.mem_append.mp he with he | he
      · exact hafter e he
      · rw [List.mem_singleton.mp he]
        exact hk
    | false =>
      rw [flush_of_not_inHand hin]
      exact ⟨value, after, helements, hafter⟩

/-- Completing an element leaves no `&` pending, unless the character is one. Either the character goes to
the element at hand, and all stays as it is, or that element is completed and the next one is attached in
the usual ways. -/
lemma combinator_step (s : Scan) (hne : s.depth = 0 → c ≠ '&') :
    (s.step c).elements = s.elements ∧ (s.step c).combinator = s.combinator ∧
        (s.inHand = true → (s.step c).inHand = true) ∨
      (s.step c).elements = s.flush.elements ∧
        ((s.step c).combinator = s.flush.combinator ∨ (s.step c).combinator ≠ .parent) := by
  by_cases hsep : s.depth = 0 ∧ Separates c
  · obtain ⟨hdepth, hc⟩ := hsep
    right
    have hsign : IsSign c → (s.step c).elements = s.flush.elements ∧
        ((s.step c).combinator = s.flush.combinator ∨ (s.step c).combinator ≠ .parent) := by
      intro hc
      obtain ⟨k, hk, hstep⟩ := step_isSign hdepth hc []
      rw [hstep]
      refine ⟨rfl, .inr ?_⟩
      rintro rfl
      unfold endingSign? at hk
      split at hk <;> cases hk
    rcases hc with hblank | hc | hc | hc | hc
    · rw [step_of_blank hdepth hblank, separate]
      dsimp only
      split
      · exact ⟨rfl, .inr (by simp)⟩
      · exact ⟨rfl, .inl rfl⟩
    · exact hsign (.inl hc)
    · exact hsign (.inr (.inl hc))
    · exact hsign (.inr (.inr hc))
    · exact absurd hc (hne hdepth)
  · have hin : (s.step c).inHand = true := (printed_step fun hdepth hc => hsep ⟨hdepth, hc⟩).2
    by_cases hcont : 0 < s.depth ∨ ¬Separates c ∧ ¬Begins s.previous c
    · left
      refine ⟨?_, ?_, fun _ => hin⟩ <;> rw [step_of_continues hcont]
    · have hdepth : s.depth = 0 := Nat.eq_zero_of_not_pos fun hpos => hcont (.inl hpos)
      have hc : ¬Separates c := fun hc => hsep ⟨hdepth, hc⟩
      by_cases hvalue : s.value = []
      · left
        refine ⟨?_, ?_, fun _ => hin⟩ <;> rw [step_of_value_eq_nil hvalue hdepth hc]
      · right
        have hbegins : Begins s.previous c := by
          by_contra hbegins
          exact hcont (.inr ⟨hc, hbegins⟩)
        rw [step_of_begins hvalue hdepth hbegins, flush_of_value_ne_nil hvalue]
        exact ⟨rfl, .inl rfl⟩

/-- A character that is no `&` outside brackets leaves the last `&` the last. -/
lemma Behind.step {before : List Element} (h : s.Behind before) (hne : s.depth = 0 → c ≠ '&') :
    (s.step c).Behind before := by
  rcases combinator_step s hne with ⟨helements, hk, hin⟩ | ⟨helements, hk⟩
  · cases h with
    | atHand helements' hk' hin' =>
      exact .atHand (helements.trans helements') (hk.trans hk') (hin hin')
    | complete helements' hafter hk' =>
      exact .complete (helements.trans helements') hafter (hk ▸ hk')
  · obtain ⟨value, after, hflush, hafter⟩ := h.flush
    refine .complete (helements.trans hflush) hafter ?_
    rcases hk with hk | hk
    · rw [hk]
      cases hin : s.inHand with
      | true =>
        rw [flush_of_inHand hin]
        exact nofun
      | false =>
        rw [flush_of_not_inHand hin]
        cases h with
        | atHand _ _ hin' =>
          rw [hin] at hin'
          cases hin'
        | complete _ _ hk' => exact hk'
    · exact hk

/-- So do all characters of a text without `&` outside brackets. -/
lemma Behind.foldl_step {before : List Element} (h : s.Behind before)
    (hcs : ∀ c ∈ outsideBrackets s.depth cs, c ≠ '&') : (cs.foldl Scan.step s).Behind before := by
  induction cs generalizing s with
  | nil => exact h
  | cons c cs ih =>
    obtain ⟨hc, hrest⟩ := forall_outsideBrackets_cons.mp hcs
    exact ih (h.step hc) (by rw [depth_step]; exact hrest)

/-- **One `&`**: the elements that are read, and what is printed with the header written out. Up to the
`&` the two scans are one, behind it they stay aligned, so what comes after it is printed by both. -/
lemma exists_of_single (hheader : ReadWhole header) {before after : List Char}
    (hdepth : openBrackets before = 0) (hdetached : Detached none 0 (before ++ '&' :: after))
    (hbefore : ∀ c ∈ outsideBrackets 0 before, c ≠ '&')
    (hafter : ∀ c ∈ outsideBrackets 0 after, c ≠ '&') :
    let s := before.foldl Scan.step {}
    s.Reads before ∧ s.inHand = false ∧ (∀ e ∈ s.elements, e.combinator ≠ .parent) ∧
      ∃ value l, (∀ e ∈ l, e.combinator ≠ .parent) ∧
        Selector.ofChars (before ++ '&' :: after) =
          Selector.ofElements (s.elements ++ ⟨.parent, value⟩ :: l) ∧
        ((before ++ (header ++ after)).foldl Scan.step {}).printed =
          elementsText s.elements ++ (s.combinator.toCss.toList ++ header) ++
            (value.toList ++ elementsText l) := by
  intro s
  have hreads : s.Reads before := reads_empty.foldl_step before
  have hzero : s.depth = 0 := (depth_foldl_step before {}).trans hdepth
  have hin : s.inHand = false :=
    hreads.resting hzero ((detached_foldl_step (s := {}) hdetached).1 hzero rfl)
  have hgood : s.Good := good_empty.foldl_step hbefore
  have haligned : Aligned s s := ⟨rfl, rfl, fun _ => ⟨rfl, rfl⟩⟩
  obtain ⟨hafterHeader, hs, ht⟩ := haligned.step_reference hheader hreads hzero hin
  have hzero' : (s.step '&').depth = 0 := by
    rw [depth_step, hzero]
    rfl
  have hafter' : ∀ c ∈ outsideBrackets (s.step '&').depth after, c ≠ '&' := by
    rw [hzero']
    exact hafter
  obtain ⟨w, hs', ht'⟩ := hafterHeader.foldl_step hafter'
  have hbehind : (s.step '&').Behind s.elements := by
    refine .atHand ?_ ?_ ?_ <;> rw [step, if_neg (by omega)]
    · show s.flush.elements = s.elements
      rw [flush_of_not_inHand hin]
    · rfl
    · rfl
  obtain ⟨value, l, hflush, hl⟩ :=
    (hbehind.foldl_step hafter').flush
  refine ⟨hreads, hin, fun e he => (hgood.solid e he).notParent, value, l, hl, ?_, ?_⟩
  · rw [Selector.ofChars, finish, List.foldl_append, List.foldl_cons, hflush]
  · -- what the scan with `&` prints behind it is the text of its element and those after it
    have hw : w = value.toList ++ elementsText l := by
      rw [printed, hflush, hs, printed_of_not_inHand hin] at hs'
      simpa using hs'.symm
    rw [List.foldl_append, List.foldl_append, ht', ht, printed_of_not_inHand hin, hw]

end Scan

/-! ## The header of the nested block

Combining puts the enclosing path in the place of one `&`, without the sign before it. From here on both
texts are known, and they are compared as lists of characters or by their ink. -/

namespace Selector

/-- The first element plays no part in how the others become a selector. -/
lemma ofElements_cons (e : Element) : ∃ e', ∀ l, ofElements (e :: l) = ⟨e' :: l⟩ := by
  obtain ⟨k, value⟩ := e
  cases k with
  | compound => exact ⟨⟨.descendant, value⟩, fun _ => rfl⟩
  | descendant | child | adjacent | sibling | parent => exact ⟨_, fun _ => rfl⟩

/-- A selector may begin with a reference to the parent. -/
lemma ofElements_parent (value : String) (l : List Element) :
    ofElements (⟨.parent, value⟩ :: l) = ⟨⟨.parent, value⟩ :: l⟩ :=
  rfl

/-- A selector is split at its first reference behind the first element. -/
lemma splitAtParent?_of_append {first parent : Element} {before after : List Element}
    (hbefore : ∀ e ∈ before, e.combinator ≠ .parent) (hparent : parent.combinator = .parent) :
    splitAtParent? ⟨first :: (before ++ parent :: after)⟩ = some (first :: before, parent, after) := by
  have hspan : (before ++ parent :: after).span (fun e => e.combinator ≠ .parent) =
      (before, parent :: after) := by
    have hall : ∀ e ∈ before, decide (e.combinator ≠ .parent) = true := fun e he =>
      decide_eq_true (hbefore e he)
    rw [List.span_eq_takeWhile_dropWhile, List.takeWhile_append_of_pos hall,
      List.dropWhile_append_of_pos hall]
    simp [hparent]
  unfold splitAtParent?
  dsimp only
  rw [hspan]

/-- A selector that is split at a reference consists of the parts. -/
lemma elements_of_splitAtParent? {s : Selector} {before after : List Element} {parent : Element}
    (h : s.splitAtParent? = some (before, parent, after)) :
    s.elements = before ++ parent :: after ∧ parent.combinator = .parent := by
  unfold splitAtParent? at h
  split at h
  · cases h
  · next first rest helements =>
    rw [List.span_eq_takeWhile_dropWhile] at h
    cases hdrop : rest.dropWhile fun e => decide (e.combinator ≠ .parent) with
    | nil =>
      rw [hdrop] at h
      cases h
    | cons parent' after' =>
      rw [hdrop] at h
      cases h
      refine ⟨?_, ?_⟩
      · rw [helements, List.cons_append, ← hdrop, List.takeWhile_append_dropWhile]
      · have hhead := List.head_dropWhile_not (fun e : Element => decide (e.combinator ≠ .parent))
          (l := rest) (by rw [hdrop]; simp)
        simp only [hdrop, List.head_cons] at hhead
        simpa using hhead

/-- What follows an `&` directly is printed as it stands. -/
lemma elementsText_suffixOf (parent : Element) :
    elementsText (suffixOf parent) = parent.value.toList := by
  unfold suffixOf
  split
  · next h => simp [eq_of_beq h]
  · simp

end Selector

namespace Path

open Selector

variable {path : Path} {first : Element} {rest : List Element}

/-- The header of a path that begins with a descendant. -/
lemma toList_header (hpath : path.flatMap elements = first :: rest)
    (hrereads : (selector path).Rereads) (hfirst : first.combinator = .descendant) :
    (header [path]).toList = first.value.toList ++ elementsText rest := by
  have htext : (selector path).toCss.toList = ' ' :: (first.value.toList ++ elementsText rest) := by
    rw [toList_toCss_eq, selector, hpath]
    simp [hfirst]
  have hsolid := (hrereads.canonical.solid first (by simp [selector, hpath])).value
  have hheader : header [path] = path.toCss := by simp [header, String.intercalate_singleton]
  obtain ⟨c, value, hvalue⟩ := List.exists_cons_of_ne_nil hsolid.ne_nil
  have hc : Text.isBlank c = false := by
    have hc := hsolid.not_separates (c := c) (by rw [hvalue]; rfl)
    exact Bool.not_eq_true _ |>.mp fun hblank => hc (.inl hblank)
  rw [hheader, toList_toCss, hrereads.trimChars_eq, htext, List.dropWhile_cons, if_pos (by decide),
    hvalue, List.cons_append, List.dropWhile_cons, if_neg (by simp [hc])]

/-- The enclosing path as it stands for an `&`. -/
lemma elementsText_inherited (hpath : path.flatMap elements = first :: rest) :
    elementsText (inherited path) = ' ' :: (first.value.toList ++ elementsText rest) := by
  rw [inherited, hpath]
  simp

/-- The text of a path begins with a space, since its first element is a descendant. -/
lemma elementsText_flatMap (hpath : path.flatMap elements = first :: rest)
    (hfirst : first.combinator = .descendant) :
    elementsText (path.flatMap elements) = ' ' :: (first.value.toList ++ elementsText rest) := by
  rw [hpath]
  simp [hfirst]

/-- The text of a path of one selector is that of the selector in messages. -/
lemma toCss_singleton (s : Selector) : toCss [s] = s.toSource := by
  simp [toCss, toSource]

/-- The text of a path that is extended at its inner end. -/
lemma toList_toCss_concat (path : Path) (s : Selector) :
    (path ++ [s]).toCss.toList =
      Text.trimChars (elementsText (path.flatMap elements) ++ elementsText s.elements) := by
  rw [toList_toCss, toList_toCss_eq, selector]
  simp

/-- **The header with one `&`**: the enclosing path stands behind what is before the `&` as a descendant.
If nothing is before it, the selector is put behind the path as it is; otherwise the path is put into the
selector. -/
lemma toCss_extend_of_single (hpath : path.flatMap elements = first :: rest)
    (hfirst : first.combinator = .descendant) {before after : List Element} {value : String}
    (hbefore : ∀ e ∈ before, e.combinator ≠ .parent) (hafter : ∀ e ∈ after, e.combinator ≠ .parent) :
    (extend path (ofElements (before ++ ⟨.parent, value⟩ :: after))).toCss.toList =
      Text.trimChars (elementsText before ++ ' ' :: (first.value.toList ++ elementsText rest) ++
        (value.toList ++ elementsText after)) := by
  cases before with
  | nil =>
    have hextend : extend path ⟨⟨.parent, value⟩ :: after⟩ = path ++ [⟨⟨.parent, value⟩ :: after⟩] :=
      extend_of_tail path hafter
    rw [List.nil_append, ofElements_parent, hextend, toList_toCss_concat,
      elementsText_flatMap hpath hfirst]
    simp
  | cons e before =>
    obtain ⟨e', he'⟩ := ofElements_cons e
    have hsplit : splitAtParent? ⟨e' :: (before ++ ⟨.parent, value⟩ :: after)⟩ =
        some (e' :: before, ⟨.parent, value⟩, after) :=
      splitAtParent?_of_append (fun x hx => hbefore x (List.mem_cons_of_mem e hx)) rfl
    have hextend : extend path (ofElements (e :: before ++ ⟨.parent, value⟩ :: after)) =
        [ofElements (e' :: (before ++ inherited path ++ suffixOf ⟨.parent, value⟩ ++ after))] := by
      rw [List.cons_append, he', extend, hsplit]
      simp only [List.cons_append]
    have htext : Text.trimChars
        (elementsText (e' :: (before ++ inherited path ++ suffixOf ⟨.parent, value⟩ ++ after))) =
        Text.trimChars
          (elementsText (e :: (before ++ inherited path ++ suffixOf ⟨.parent, value⟩ ++ after))) := by
      rw [← trimChars_toCss_ofElements (e :: _), he', toList_toCss_eq]
    rw [hextend, toCss_singleton, toList_toSource, trimChars_toCss_ofElements, htext]
    simp only [elementsText_cons, elementsText_append, elementsText_inherited hpath,
      elementsText_suffixOf, List.append_assoc, List.cons_append]

/-- **The header of a nested block has the ink of the enclosing header once.** -/
lemma ink_extend (hpath : path.flatMap elements = first :: rest)
    (hfirst : first.combinator = .descendant) (s : Selector) :
    ink (extend path s).toCss.toList =
      ink (first.value.toList ++ elementsText rest) + ink s.toCss.toList := by
  have hblank : ∀ l, ink (' ' :: l) = ink l := fun l => List.countP_cons_of_neg (by decide)
  cases hsplit : s.splitAtParent? with
  | none =>
    rw [extend, hsplit]
    dsimp only
    rw [toList_toCss_concat, ink_trimChars, ink_append, elementsText_flatMap hpath hfirst, hblank,
      toList_toCss_eq]
  | some split =>
    obtain ⟨before, parent, after⟩ := split
    obtain ⟨helements, hparent⟩ := elements_of_splitAtParent? hsplit
    rw [extend, hsplit]
    dsimp only
    rw [toCss_singleton, toList_toSource, trimChars_toCss_ofElements, ink_trimChars, toList_toCss_eq,
      helements]
    simp only [elementsText_cons, elementsText_append, elementsText_inherited hpath,
      elementsText_suffixOf, ink_append, hblank, hparent, Combinator.toList_toCss_parent, ink_nil]
    omega

section references

variable {before after : List Char} (hpath : path.flatMap elements = first :: rest)
  (hrereads : (selector path).Rereads) (hfirst : first.combinator = .descendant)
  (hdepth : openBrackets before = 0) (hdetached : Detached none 0 (before ++ '&' :: after))

include hpath hrereads

/-- The text of the path around is read in one piece. -/
lemma readWhole_header : Scan.ReadWhole (first.value.toList ++ elementsText rest) := by
  refine Scan.readWhole_of_rereads ?_
  rw [← hpath]
  exact hrereads

include hfirst hdepth hdetached

/-- With one `&`, the two readings differ by the sign before it: the header has a space in its place. A
sign has ink and a space has none, so the texts cannot be the same by chance. -/
lemma toCss_extend_eq_iff_of_single (hbefore : ∀ c ∈ outsideBrackets 0 before, c ≠ '&')
    (hafter : ∀ c ∈ outsideBrackets 0 after, c ≠ '&') :
    (extend path (ofChars (before ++ '&' :: after))).toCss.toList =
        Text.trimChars (ofChars (substitute (first.value.toList ++ elementsText rest) 0
          (before ++ '&' :: after))).toCss.toList ↔
      endingSign? before = none := by
  have hzero : before.foldl bracketDepth 0 = 0 := hdepth
  obtain ⟨hreads, hin, helements, value, l, hl, hread, hprinted⟩ :=
    Scan.exists_of_single (readWhole_header hpath hrereads) hdepth hdetached hbefore hafter
  have hsubstitute : substitute (first.value.toList ++ elementsText rest) 0 (before ++ '&' :: after) =
      before ++ ((first.value.toList ++ elementsText rest) ++ after) := by
    rw [substitute_append, substitute_of_notMem hbefore, hzero, substitute, if_pos ⟨rfl, rfl⟩,
      substitute_of_notMem hafter]
  rw [hread, toCss_extend_of_single hpath hfirst helements hl, hsubstitute, ofChars, Scan.finish,
    trimChars_toCss_ofElements]
  change _ = Text.trimChars (Scan.printed _) ↔ _
  rw [hprinted]
  have hpending := hreads.pending hin
  cases hsign : endingSign? before with
  | none =>
    refine iff_of_true ?_ rfl
    rw [hpending, hsign, Option.getD_none]
    split
    · next hempty =>
      -- nothing stands before the `&`
      rw [List.isEmpty_iff.mp hempty]
      exact trimChars_cons_blank _
    · simp
  | some k =>
    refine iff_of_false (fun heq => ?_) (by simp)
    have hblank : ink [' '] = 0 := by decide
    have hink := congrArg ink heq
    rw [hpending, hsign, Option.getD_some, ink_trimChars, ink_trimChars, ← List.singleton_append (x := ' ')]
      at hink
    simp only [ink_append, hblank] at hink
    have := ink_of_endingSign? hsign
    omega

/-- With several `&`, the text with headers written out has more ink: that of the enclosing header at
least twice, where the header of the block has it once. -/
lemma toCss_extend_ne_of_several (hafter : '&' ∈ outsideBrackets 0 after) :
    (extend path (ofChars (before ++ '&' :: after))).toCss.toList ≠
      Text.trimChars (ofChars (substitute (first.value.toList ++ elementsText rest) 0
        (before ++ '&' :: after))).toCss.toList := by
  intro heq
  have hzero : before.foldl bracketDepth 0 = 0 := hdepth
  have hink := congrArg ink heq
  have hcount : 2 ≤ (outsideBrackets 0 (before ++ '&' :: after)).count '&' := by
    have hpos : 0 < (outsideBrackets 0 after).count '&' := List.count_pos_iff.mpr hafter
    rw [outsideBrackets_append, hzero, outsideBrackets, if_pos rfl, List.count_append,
      List.count_cons_self]
    exact (Nat.le_add_left _ _).trans' (Nat.succ_le_succ hpos)
  have hpos : 0 < ink (first.value.toList ++ elementsText rest) := by
    have hsolid := (hrereads.canonical.solid first (by simp [selector, hpath])).value
    rw [ink_append]
    have := hsolid.ink_pos
    omega
  have haligned : Scan.Aligned {} {} := ⟨rfl, rfl, fun _ => ⟨rfl, rfl⟩⟩
  have hle := haligned.ink_le (readWhole_header hpath hrereads) Scan.reads_empty hdetached
  have hprinted : ∀ cs, ink (ofChars cs).toCss.toList = ink (cs.foldl Scan.step {}).printed := by
    intro cs
    rw [← ink_trimChars, ofChars, Scan.finish, trimChars_toCss_ofElements, ink_trimChars, Scan.printed]
  rw [ink_extend hpath hfirst, ink_trimChars, hprinted, hprinted] at hink
  have hmul := Nat.mul_le_mul_right (ink (first.value.toList ++ elementsText rest)) hcount
  dsimp only at hle
  omega

end references

/-- **When `&` is read textually.** Take a path of selectors without `&` and with closed brackets, whose
first element is a descendant, and the text of a selector with at least one `&` outside brackets, each
at the start or after a blank or a sign. The header of the nested block is the text with the enclosing
header in the place of every `&` if and only if there is only one `&` and, blanks aside, no sign before
it. -/
theorem header_combine_eq_substitute_iff {path : Path} {text : String}
    (hpath : ∀ s ∈ path, ∃ t : String, s = parse t ∧ '&' ∉ outsideBrackets 0 t.toList ∧
      openBrackets t.toList = 0)
    (hfirst : ∃ e ∈ (path.flatMap elements).head?, e.combinator = .descendant)
    (hsome : '&' ∈ outsideBrackets 0 text.toList) (hdetached : Detached none 0 text.toList) :
    header (combine [path] [parse text]) =
        (parse (String.ofList (substitute (header [path]).toList 0 text.toList))).toSource ↔
      ∃ before after, text.toList = before ++ '&' :: after ∧ openBrackets before = 0 ∧
        '&' ∉ outsideBrackets 0 (before ++ after) ∧ endingSign? before = none := by
  obtain ⟨first, hmem, hk⟩ := hfirst
  obtain ⟨rest, helements⟩ := List.head?_eq_some_iff.mp hmem
  have hrereads : (selector path).Rereads := by
    refine rereads_selector fun s hs => ?_
    obtain ⟨t, rfl, hparent, hclosed⟩ := hpath s hs
    exact rereads_ofChars (fun c hc hc' => hparent (hc' ▸ hc)) hclosed
  obtain ⟨before, after, htext, hdepth, hbefore⟩ := exists_first_reference hsome
  have hleft : header (combine [path] [parse text]) = (extend path (parse text)).toCss := by
    simp [combine, header, String.intercalate_singleton]
  rw [htext] at hdetached
  rw [hleft, ← String.toList_inj, toList_toSource, parse, parse, String.toList_ofList, htext,
    toList_header helements hrereads hk]
  have hzero : before.foldl bracketDepth 0 = 0 := hdepth
  by_cases hafter : '&' ∈ outsideBrackets 0 after
  · refine iff_of_false (toCss_extend_ne_of_several helements hrereads hk hdepth hdetached hafter) ?_
    rintro ⟨before', after', hsplit, hdepth', hnone, -⟩
    have hzero' : before'.foldl bracketDepth 0 = 0 := hdepth'
    rw [outsideBrackets_append, hzero', List.mem_append, not_or] at hnone
    obtain ⟨rfl, rfl⟩ := first_reference_unique hsplit hdepth hdepth' hbefore
      fun c hc hc' => hnone.1 (hc' ▸ hc)
    exact hnone.2 hafter
  · rw [toCss_extend_eq_iff_of_single helements hrereads hk hdepth hdetached hbefore
      fun c hc hc' => hafter (hc' ▸ hc)]
    constructor
    · intro hsign
      refine ⟨before, after, rfl, hdepth, ?_, hsign⟩
      rw [outsideBrackets_append, hzero, List.mem_append, not_or]
      exact ⟨fun hmem => hbefore '&' hmem rfl, hafter⟩
    · rintro ⟨before', after', hsplit, hdepth', hnone, hsign⟩
      have hzero' : before'.foldl bracketDepth 0 = 0 := hdepth'
      rw [outsideBrackets_append, hzero', List.mem_append, not_or] at hnone
      obtain ⟨rfl, rfl⟩ := first_reference_unique hsplit hdepth hdepth' hbefore
        fun c hc hc' => hnone.1 (hc' ▸ hc)
      exact hsign

/-- An `&` in brackets is text, and what stands behind an `&` is attached to the enclosing path. -/
theorem header_combine_eq_substitute_sample :
    let path := [parse "a", parse "> b"]
    let text := "h1 &[x='&'].c"
    (∀ s ∈ path, ∃ t : String, s = parse t ∧ '&' ∉ outsideBrackets 0 t.toList ∧
      openBrackets t.toList = 0) ∧
    (∃ e ∈ (path.flatMap elements).head?, e.combinator = .descendant) ∧
    '&' ∈ outsideBrackets 0 text.toList ∧ Detached none 0 text.toList ∧
    header (combine [path] [parse text]) =
      (parse (String.ofList (substitute (header [path]).toList 0 text.toList))).toSource := by
  intro path text
  have hpath : ∀ s ∈ path, ∃ t : String, s = parse t ∧ '&' ∉ outsideBrackets 0 t.toList ∧
      openBrackets t.toList = 0 := by
    intro s hs
    rcases List.mem_cons.mp hs with rfl | hs
    · exact ⟨"a", rfl, by decide, by decide⟩
    · rw [List.mem_singleton.mp hs]
      exact ⟨"> b", rfl, by decide, by decide⟩
  have hfirst : ∃ e ∈ (path.flatMap elements).head?, e.combinator = .descendant :=
    ⟨⟨.descendant, "a"⟩, by decide +kernel, rfl⟩
  have hsome : '&' ∈ outsideBrackets 0 text.toList := by decide
  have hdetached : Detached none 0 text.toList := by decide
  refine ⟨hpath, hfirst, hsome, hdetached, ?_⟩
  exact (header_combine_eq_substitute_iff hpath hfirst hsome hdetached).mpr
    ⟨"h1 ".toList, "[x='&'].c".toList, by decide, by decide, by decide, by decide⟩

-- a second `&` is not replaced, and a sign before an `&` is lost
example : header (combine [[parse "a"]] [parse "b & &", parse "b > &"]) = "b a, b a" := by
  decide +kernel

end Path

end Stylesheet
