import Mathlib.Algebra.BigOperators.Group.List.Basic
import Mathlib.Data.List.Sections
import Mathlib.Data.List.TakeWhile
import Stylesheet.Proofs.SelectorText
import Stylesheet.Selector.Path

/-!
# What a header says

The header of a nested block is text, and it says all that the selector groups around the block say:
reading it as a selector group gives back one selector for each way inward, with the elements of the
selectors on that way (`Path.parseGroup_header`). This is about groups without `&` in which all
brackets are closed.

* **Brackets.** A group is divided at commas and a selector at blanks and signs, by two readers that
  count brackets each for itself. `outsideBrackets` are the characters that either of them looks at, and
  both readers keep what is outside brackets outside (`Selector.outside_ofChars`, `splitGroup_pieces`).
* **Ways inward.** Without `&`, combining groups one by one gives the sections of the list of groups
  (`Path.foldl_combine_eq_sections`), in the order of `Path.place`.
* **Texts.** A way inward is printed as one selector (`Path.selector`), which is read back from its text
  with the blanks at the ends removed (`Selector.Rereads.ofChars_trimChars`), also behind a comma.
-/

namespace Stylesheet

/-! ## Outside brackets

Both readers count brackets in the same way, so the same characters are outside brackets for both. What is
known of these is followed through the scan of a selector: every one of them is dropped or goes to the
element at hand. -/

/-- The characters outside brackets; brackets that open are among them. The count of open brackets
starts at `depth`. -/
def outsideBrackets : (depth : Nat) → List Char → List Char
  | _, [] => []
  | depth, c :: rest =>
    if depth = 0 then c :: outsideBrackets (bracketDepth depth c) rest
    else outsideBrackets (bracketDepth depth c) rest

/-- What is outside brackets in two texts is so in the second one behind the brackets that the first one
leaves open. -/
lemma outsideBrackets_append (depth : Nat) (a b : List Char) :
    outsideBrackets depth (a ++ b) =
      outsideBrackets depth a ++ outsideBrackets (a.foldl bracketDepth depth) b := by
  induction a generalizing depth with
  | nil => rfl
  | cons c a ih =>
    rw [List.cons_append, outsideBrackets, outsideBrackets, List.foldl_cons, ih]
    split <;> rfl

/-- A condition on what is outside brackets, character by character. -/
lemma forall_outsideBrackets_cons {Q : Char → Prop} {depth : Nat} {c : Char} {cs : List Char} :
    (∀ x ∈ outsideBrackets depth (c :: cs), Q x) ↔
      (depth = 0 → Q c) ∧ ∀ x ∈ outsideBrackets (bracketDepth depth c) cs, Q x := by
  rw [outsideBrackets]
  split
  · next hdepth => simp [hdepth]
  · next hdepth => simp [hdepth]

/-- A blank opens and closes no bracket. -/
lemma bracketDepth_of_isBlank {c : Char} (h : Text.isBlank c = true) (depth : Nat) :
    bracketDepth depth c = depth := by
  have hopen : ¬(c = '[' ∨ c = '(') := by
    rintro (rfl | rfl) <;> exact absurd h (by decide)
  have hclose : ¬(c = ']' ∨ c = ')') := by
    rintro (rfl | rfl) <;> exact absurd h (by decide)
  rw [bracketDepth, if_neg hopen, if_neg hclose]

/-- A character between elements opens and closes no bracket. -/
lemma bracketDepth_of_separates {c : Char} (h : Separates c) (depth : Nat) :
    bracketDepth depth c = depth := by
  rcases h with hblank | rfl | rfl | rfl | rfl
  · exact bracketDepth_of_isBlank hblank depth
  all_goals rfl

namespace Scan

variable {s : Scan} {c : Char}

/-- A scan counts brackets as a group does. -/
lemma depth_step (s : Scan) (c : Char) : (s.step c).depth = bracketDepth s.depth c := by
  by_cases hdepth : 0 < s.depth
  · rw [step_of_continues (.inl hdepth)]
  · have hdepth : s.depth = 0 := Nat.eq_zero_of_not_pos hdepth
    by_cases hc : Separates c
    · have hflush : s.flush.depth = 0 := (depth_flush s).trans hdepth
      rw [hdepth, bracketDepth_of_separates hc]
      rcases hc with hblank | rfl | rfl | rfl | rfl
      · rw [step_of_blank hdepth hblank, separate]
        dsimp only
        split <;> exact hflush
      all_goals
        rw [step, if_neg (by omega)]
        exact hflush
    · by_cases hbegins : Begins s.previous c
      · rw [step, if_neg (by omega), readPlain_of_begins hdepth hbegins, hdepth]
      · rw [step_of_continues (.inr ⟨hc, hbegins⟩)]

/-- A scan counts brackets as its characters open and close them. -/
lemma depth_foldl_step (cs : List Char) (s : Scan) :
    (cs.foldl step s).depth = cs.foldl bracketDepth s.depth := by
  induction cs generalizing s with
  | nil => rfl
  | cons c cs ih => rw [List.foldl_cons, List.foldl_cons, ih, depth_step]

/-- Only an `&` starts an element that counts without characters. Completing an element unsets the mark,
and no other way to begin one sets it. -/
lemma started_step (hstarted : s.started = false) (hc : s.depth = 0 → c ≠ '&') :
    (s.step c).started = false := by
  have hflush : s.flush.started = false := by
    unfold flush
    split
    · rfl
    · exact hstarted
  have hbegin : ∀ c, (s.begin c).started = false := by
    intro c
    unfold begin push
    split
    · exact hstarted
    · exact hflush
  unfold step
  split
  · exact hstarted
  · next hdepth =>
    have hc := hc (Nat.eq_zero_of_not_pos hdepth)
    unfold readPlain
    split
    · unfold separate
      dsimp only
      split <;> exact hflush
    · split
      · exact hflush
      · exact hflush
      · exact hflush
      · exact absurd rfl hc
      · split
        · exact hstarted
        · exact hbegin ':'
      · exact hbegin '.'
      · exact hbegin '#'
      · exact hbegin '['
      · exact hstarted
      · exact hstarted

/-- A character that is no `&` outside brackets keeps a scan good. -/
lemma Good.step_of_ne (h : s.Good) (hc : s.depth = 0 → c ≠ '&') : (s.step c).Good := by
  rcases h.step c with hgood | ⟨e, he, hparent⟩ | ⟨hstarted, -⟩
  · exact hgood
  · rcases s.step_elements c with helements | ⟨helements, -⟩
    · rw [helements] at he
      exact absurd hparent (h.flush_elements.1 e he).notParent
    · rw [helements] at he
      exact absurd hparent (h.solid e he).notParent
  · rw [started_step h.notStarted hc] at hstarted
    cases hstarted

/-- Characters without an `&` outside brackets keep a scan good. -/
lemma Good.foldl_step (h : s.Good) {cs : List Char}
    (hcs : ∀ c ∈ outsideBrackets s.depth cs, c ≠ '&') : (cs.foldl Scan.step s).Good := by
  induction cs generalizing s with
  | nil => exact h
  | cons c cs ih =>
    obtain ⟨hc, hrest⟩ := forall_outsideBrackets_cons.mp hcs
    refine ih (h.step_of_ne hc) ?_
    rw [depth_step]
    exact hrest

/-- All characters outside brackets, in the elements so far and in the one at hand, satisfy `Q`. -/
structure Keeps (Q : Char → Prop) (s : Scan) : Prop where
  /-- In the elements that are complete. -/
  elements : ∀ e ∈ s.elements, ∀ c ∈ outsideBrackets 0 e.value.toList, Q c
  /-- In the element at hand. -/
  value : ∀ c ∈ outsideBrackets 0 s.value, Q c

variable {Q : Char → Prop}

/-- Completing the element at hand keeps all characters. -/
lemma Keeps.flush (h : s.Keeps Q) : s.flush.Keeps Q := by
  unfold Scan.flush
  split
  · refine ⟨fun e he => ?_, by simp [outsideBrackets]⟩
    rcases List.mem_append.mp he with he | he
    · exact h.elements e he
    · rw [List.mem_singleton.mp he, String.toList_ofList]
      exact h.value
  · exact h

/-- One more character of the element at hand. -/
lemma Keeps.value_snoc (h : s.Keeps Q) (hgood : s.Good) (hc : s.depth = 0 → Q c) :
    ∀ x ∈ outsideBrackets 0 (s.value ++ [c]), Q x := by
  intro x hx
  rw [outsideBrackets_append] at hx
  rcases List.mem_append.mp hx with hx | hx
  · exact h.value x hx
  · have hdepth : s.value.foldl bracketDepth 0 = s.depth := hgood.depth.symm
    rw [hdepth, outsideBrackets, outsideBrackets] at hx
    split at hx
    · next hzero =>
      rw [List.mem_singleton.mp hx]
      exact hc hzero
    · cases hx

/-- A step keeps the property if the character has it, or is inside brackets: each character is added to
the element at hand, to the next one, or to none. -/
lemma Keeps.step (h : s.Keeps Q) (hgood : s.Good) (hc : s.depth = 0 → Q c) :
    (s.step c).Keeps Q := by
  have hflush := h.flush
  by_cases hcont : 0 < s.depth ∨ ¬Separates c ∧ ¬Begins s.previous c
  · rw [step_of_continues hcont]
    exact ⟨h.elements, h.value_snoc hgood hc⟩
  · have hdepth : s.depth = 0 := Nat.eq_zero_of_not_pos fun hpos => hcont (.inl hpos)
    by_cases hsep : Separates c
    · rcases hsep with hblank | rfl | rfl | rfl | rfl
      · rw [step_of_blank hdepth hblank, separate]
        dsimp only
        split <;> exact ⟨hflush.elements, hflush.value⟩
      all_goals
        rw [Scan.step, if_neg (by omega)]
        exact ⟨hflush.elements, hflush.value⟩
    · have hbegins : Begins s.previous c := by
        by_contra hbegins
        exact hcont (.inr ⟨hsep, hbegins⟩)
      have hsingle : ∀ x ∈ outsideBrackets 0 [c], Q x := by
        rw [outsideBrackets, if_pos rfl, outsideBrackets]
        intro x hx
        rw [List.mem_singleton.mp hx]
        exact hc hdepth
      by_cases hvalue : s.value = []
      · rw [step_of_value_eq_nil hvalue hdepth hsep]
        exact ⟨h.elements, hsingle⟩
      · rw [flush_of_value_ne_nil hvalue] at hflush
        rw [step_of_begins hvalue hdepth hbegins]
        exact ⟨hflush.elements, hsingle⟩

/-- So do all steps of a scan. -/
lemma Keeps.foldl_step (h : s.Keeps Q) (hgood : s.Good) {cs : List Char}
    (hparent : ∀ c ∈ outsideBrackets s.depth cs, c ≠ '&')
    (hcs : ∀ c ∈ outsideBrackets s.depth cs, Q c) : (cs.foldl Scan.step s).Keeps Q := by
  induction cs generalizing s with
  | nil => exact h
  | cons c cs ih =>
    obtain ⟨hc, hrest⟩ := forall_outsideBrackets_cons.mp hcs
    obtain ⟨hne, hparent⟩ := forall_outsideBrackets_cons.mp hparent
    rw [← depth_step] at hrest hparent
    exact ih (h.step hgood hc) (hgood.step_of_ne hne) hparent hrest

end Scan

namespace Selector

/-- Reading changes no values: the first element may only become a descendant. -/
lemma exists_of_mem_ofElements {l : List Element} {e : Element}
    (he : e ∈ (Selector.ofElements l).elements) : ∃ e' ∈ l, e'.value = e.value := by
  unfold Selector.ofElements at he
  split at he
  · rcases List.mem_cons.mp he with rfl | he
    · exact ⟨_, List.mem_cons_self, rfl⟩
    · exact ⟨e, List.mem_cons_of_mem _ he, rfl⟩
  · exact ⟨e, he, rfl⟩

section reading

variable {cs : List Char} (hparent : ∀ c ∈ outsideBrackets 0 cs, c ≠ '&')

include hparent

/-- A text without `&` outside brackets is scanned without a reference to the parent. -/
lemma good_of_outside : (cs.foldl Scan.step {}).Good :=
  Scan.good_empty.foldl_step hparent

/-- What is read without `&` outside brackets is canonical. -/
lemma canonical_ofChars : (ofChars cs).Canonical :=
  have hflush := (good_of_outside hparent).flush_elements
  canonical_ofElements hflush.1 hflush.2

/-- **Reading keeps outside brackets what is outside brackets.** -/
lemma outside_ofChars {Q : Char → Prop} (hcs : ∀ c ∈ outsideBrackets 0 cs, Q c) :
    ∀ e ∈ (ofChars cs).elements, ∀ c ∈ outsideBrackets 0 e.value.toList, Q c := by
  intro e he
  obtain ⟨e', he', hvalue⟩ := exists_of_mem_ofElements he
  have hempty : Scan.Keeps Q {} := ⟨by simp, by simp [outsideBrackets]⟩
  have hkeeps := (hempty.foldl_step Scan.good_empty hparent hcs).flush
  rw [← hvalue]
  exact hkeeps.elements e' he'

/-- Where all brackets are closed, they are closed in each element. -/
lemma closed_ofChars (hclosed : openBrackets cs = 0) :
    ∀ e ∈ (ofChars cs).elements, openBrackets e.value.toList = 0 := by
  intro e he
  obtain ⟨e', he', hvalue⟩ := exists_of_mem_ofElements he
  rw [← hvalue]
  refine (good_of_outside hparent).flush_closed ?_ e' he'
  rw [Scan.depth_foldl_step]
  exact hclosed

end reading

/-! ## Selectors that are read back inside a group

A header is trimmed at its ends, and there are commas between its paths. So a little more is asked of a
selector than that it is read back from its own text. -/

/-- A selector that is read back from its text, with or without the blanks at the ends. -/
structure Rereads (s : Selector) : Prop where
  /-- It is the form that reading gives. -/
  canonical : s.Canonical
  /-- Its brackets are closed. -/
  closed : ∀ e ∈ s.elements, openBrackets e.value.toList = 0

/-- A selector that is read back from its text also between commas. -/
structure Undivided (s : Selector) : Prop extends s.Rereads where
  /-- It has no comma outside brackets. -/
  comma : ∀ e ∈ s.elements, ∀ c ∈ outsideBrackets 0 e.value.toList, c ≠ ','

/-- A text without `&` outside brackets, whose brackets are closed, gives a selector that is read back. -/
lemma rereads_ofChars {cs : List Char} (hparent : ∀ c ∈ outsideBrackets 0 cs, c ≠ '&')
    (hclosed : openBrackets cs = 0) : (ofChars cs).Rereads :=
  ⟨canonical_ofChars hparent, closed_ofChars hparent hclosed⟩

/-- Without commas outside brackets it is read back also between commas. -/
lemma undivided_ofChars {cs : List Char} (hparent : ∀ c ∈ outsideBrackets 0 cs, c ≠ '&')
    (hclosed : openBrackets cs = 0) (hcomma : ∀ c ∈ outsideBrackets 0 cs, c ≠ ',') :
    (ofChars cs).Undivided :=
  ⟨rereads_ofChars hparent hclosed, outside_ofChars hparent hcomma⟩

/-- The characters of a selector are those of its elements, one after the other. -/
lemma toList_toCss (s : Selector) :
    s.toCss.toList = s.elements.flatMap fun e => e.toCss.toList := by
  simp [toCss, List.flatMap_map]

end Selector

/-- The sign of a combinator is outside brackets, and is no comma. -/
lemma Combinator.sign_undivided (k : Combinator) :
    k.toCss.toList.foldl bracketDepth 0 = 0 ∧ ∀ c ∈ outsideBrackets 0 k.toCss.toList, c ≠ ',' := by
  have hcomma : ',' ∉ outsideBrackets 0 k.toCss.toList := by cases k <;> decide
  refine ⟨by cases k <;> decide, ?_⟩
  rintro c hc rfl
  exact hcomma hc

/-- The characters of an element are those of its combinator and then those of its value. -/
lemma Element.toList_toCss (e : Element) :
    e.toCss.toList = e.combinator.toCss.toList ++ e.value.toList :=
  String.toList_append

namespace Selector.Undivided

variable {s : Selector}

/-- The text has closed brackets and no comma outside them, since its elements have and combinators are no
brackets and no commas. -/
lemma text (h : s.Undivided) :
    openBrackets s.toCss.toList = 0 ∧ ∀ c ∈ outsideBrackets 0 s.toCss.toList, c ≠ ',' := by
  obtain ⟨elements⟩ := s
  have key : ∀ l : List Element, (∀ e ∈ l, openBrackets e.value.toList = 0) →
      (∀ e ∈ l, ∀ c ∈ outsideBrackets 0 e.value.toList, c ≠ ',') →
      (l.flatMap fun e => e.toCss.toList).foldl bracketDepth 0 = 0 ∧
        ∀ c ∈ outsideBrackets 0 (l.flatMap fun e => e.toCss.toList), c ≠ ',' := by
    intro l
    induction l with
    | nil => exact fun _ _ => ⟨rfl, by simp [outsideBrackets]⟩
    | cons e l ih =>
      intro hclosed hundivided
      obtain ⟨hrest, hrestComma⟩ := ih (fun e' he' => hclosed e' (List.mem_cons_of_mem e he'))
        fun e' he' => hundivided e' (List.mem_cons_of_mem e he')
      obtain ⟨hsign, hsignComma⟩ := e.combinator.sign_undivided
      have hvalue : e.value.toList.foldl bracketDepth 0 = 0 := hclosed e List.mem_cons_self
      rw [List.flatMap_cons, Element.toList_toCss, List.foldl_append, List.foldl_append, hsign, hvalue,
        outsideBrackets_append, outsideBrackets_append, List.foldl_append, hsign, hvalue]
      refine ⟨hrest, fun c hc => ?_⟩
      simp only [List.mem_append] at hc
      rcases hc with (hc | hc) | hc
      · exact hsignComma c hc
      · exact hundivided e List.mem_cons_self c hc
      · exact hrestComma c hc
  rw [Selector.toList_toCss]
  exact key elements h.closed h.comma

end Selector.Undivided

/-! ## Blanks at the ends -/

/-- Outside brackets the last character of an element is no blank. -/
lemma Solid.isBlank_getLast {v : List Char} (h : Solid v) (hclosed : openBrackets v = 0) {c : Char}
    (hc : v.getLast? = some c) : Text.isBlank c = false := by
  cases h with
  | single h =>
    cases hc
    exact Bool.not_eq_true _ |>.mp fun hblank => h (.inl hblank)
  | @snoc v c' _ hcont =>
    rw [List.getLast?_concat] at hc
    cases hc
    rcases hcont with hopen | ⟨hseparates, -⟩
    · -- a blank would leave the bracket open
      by_contra hblank
      rw [openBrackets_snoc, bracketDepth_of_isBlank (Bool.not_eq_false _ |>.mp hblank)] at hclosed
      omega
    · exact Bool.not_eq_true _ |>.mp fun hblank => hseparates (.inl hblank)

/-- A text that does not end in a blank has blanks to lose only in front. -/
lemma Text.trimChars_eq_dropWhile {cs : List Char}
    (h : ∀ c, cs.getLast? = some c → Text.isBlank c = false) :
    Text.trimChars cs = cs.dropWhile Text.isBlank := by
  unfold Text.trimChars
  have hlast : ∀ c, (cs.dropWhile Text.isBlank).getLast? = some c → Text.isBlank c = false := by
    intro c hc
    refine h c ?_
    obtain ⟨front, hfront⟩ := List.dropWhile_suffix (l := cs) Text.isBlank
    rw [← hfront, List.getLast?_append, hc]
    rfl
  generalize cs.dropWhile Text.isBlank = l at hlast
  cases l using List.reverseRecOn with
  | nil => rfl
  | append_singleton l c =>
    have hc := hlast c (List.getLast?_concat)
    simp [hc]

namespace Scan

/-- Where no element is at hand, it does not matter what was read last. -/
lemma step_previous (p : Option Char) (c : Char) :
    step { previous := p } c = step {} c := by
  by_cases hc : Separates c
  · rcases hc with hblank | rfl | rfl | rfl | rfl
    · rw [step_of_blank rfl hblank, step_of_blank rfl hblank]
      rfl
    all_goals rfl
  · rw [step_of_value_eq_nil rfl rfl hc, step_of_value_eq_nil rfl rfl hc]

/-- What was read before the first character of a selector makes no difference. -/
lemma finish_foldl_step_previous (p : Option Char) (cs : List Char) :
    (cs.foldl step { previous := p }).finish = (cs.foldl step {}).finish := by
  cases cs with
  | nil => rfl
  | cons c cs => rw [List.foldl_cons, List.foldl_cons, step_previous]

end Scan

namespace Selector

/-- A blank in front is not read. -/
lemma ofChars_cons_of_isBlank {c : Char} (h : Text.isBlank c = true) (cs : List Char) :
    ofChars (c :: cs) = ofChars cs := by
  have hstep : Scan.step {} c = { previous := some c } := by
    rw [Scan.step_of_blank rfl h]
    rfl
  rw [ofChars, List.foldl_cons, hstep, Scan.finish_foldl_step_previous, ofChars]

/-- Blanks in front are not read. -/
lemma ofChars_dropWhile_isBlank (cs : List Char) :
    ofChars (cs.dropWhile Text.isBlank) = ofChars cs := by
  induction cs with
  | nil => rfl
  | cons c cs ih =>
    rw [List.dropWhile_cons]
    split
    · next hblank => rw [ih, ofChars_cons_of_isBlank hblank]
    · rfl

namespace Rereads

variable {s : Selector}

/-- The text of a selector that is read back does not end in a blank. -/
lemma isBlank_getLast (h : s.Rereads) {c : Char} (hc : s.toCss.toList.getLast? = some c) :
    Text.isBlank c = false := by
  obtain ⟨elements⟩ := s
  cases elements using List.reverseRecOn with
  | nil => cases hc
  | append_singleton rest e =>
    have he : e ∈ rest ++ [e] := by simp
    have hsolid := (h.canonical.solid e he).value
    rw [toList_toCss, List.flatMap_append, List.flatMap_singleton, Element.toList_toCss,
      ← List.append_assoc, List.getLast?_append_of_ne_nil _ hsolid.ne_nil] at hc
    exact hsolid.isBlank_getLast (h.closed e he) hc

/-- Trimming it takes blanks off its front only. -/
lemma trimChars_eq (h : s.Rereads) :
    Text.trimChars s.toCss.toList = s.toCss.toList.dropWhile Text.isBlank :=
  Text.trimChars_eq_dropWhile fun _ hc => h.isBlank_getLast hc

/-- **A selector is read back from its text** also without the blanks at the ends. -/
theorem ofChars_trimChars (h : s.Rereads) : ofChars (Text.trimChars s.toCss.toList) = s := by
  rw [h.trimChars_eq, ofChars_dropWhile_isBlank, h.canonical.ofChars_toCss]

end Rereads

/-- Without the blanks at the ends, the text has closed brackets and no comma outside them. -/
lemma Undivided.text_trimChars {s : Selector} (h : s.Undivided) :
    openBrackets (Text.trimChars s.toCss.toList) = 0 ∧
      ∀ c ∈ outsideBrackets 0 (Text.trimChars s.toCss.toList), c ≠ ',' := by
  have hblanks : ∀ l : List Char, (∀ c ∈ l, Text.isBlank c = true) →
      l.foldl bracketDepth 0 = 0 := by
    intro l hl
    induction l with
    | nil => rfl
    | cons c l ih =>
      rw [List.foldl_cons, bracketDepth_of_isBlank (hl c List.mem_cons_self)]
      exact ih fun x hx => hl x (List.mem_cons_of_mem c hx)
  obtain ⟨hclosed, hcomma⟩ := h.text
  have hfront := hblanks (s.toCss.toList.takeWhile Text.isBlank) fun c hc =>
    List.mem_takeWhile_imp hc
  rw [h.trimChars_eq]
  rw [← List.takeWhile_append_dropWhile (p := Text.isBlank) (l := s.toCss.toList)] at hclosed hcomma
  rw [openBrackets, List.foldl_append, hfront] at hclosed
  rw [outsideBrackets_append, hfront] at hcomma
  exact ⟨hclosed, fun c hc => hcomma c (List.mem_append_right _ hc)⟩

/-! ## Dividing a group

A group is divided at the commas outside brackets. Behind a piece whose brackets are closed the count is
at zero again, so the pieces can be looked at one by one. -/

/-- A text without comma outside brackets is one piece. -/
lemma splitGroup_of_undivided {depth : Nat} {cs : List Char}
    (h : ∀ c ∈ outsideBrackets depth cs, c ≠ ',') : splitGroup depth cs = [cs] := by
  induction cs generalizing depth with
  | nil => rfl
  | cons c cs ih =>
    obtain ⟨hc, hrest⟩ := forall_outsideBrackets_cons.mp h
    have hcond : ¬(c = ',' ∧ depth = 0) := fun ⟨hcomma, hdepth⟩ => hc hdepth hcomma
    rw [splitGroup, if_neg hcond, ih hrest]
    rfl

/-- A comma outside brackets ends a piece. -/
lemma splitGroup_append_comma {depth : Nat} {cs : List Char} (rest : List Char)
    (h : ∀ c ∈ outsideBrackets depth cs, c ≠ ',') (hclosed : cs.foldl bracketDepth depth = 0) :
    splitGroup depth (cs ++ ',' :: rest) = cs :: splitGroup 0 rest := by
  induction cs generalizing depth with
  | nil =>
    obtain rfl : depth = 0 := hclosed
    rw [List.nil_append, splitGroup, if_pos ⟨rfl, rfl⟩]
  | cons c cs ih =>
    obtain ⟨hc, hrest⟩ := forall_outsideBrackets_cons.mp h
    have hcond : ¬(c = ',' ∧ depth = 0) := fun ⟨hcomma, hdepth⟩ => hc hdepth hcomma
    rw [List.cons_append, splitGroup, if_neg hcond, ih hrest hclosed]
    rfl

/-- What holds of the pieces of a group in which all brackets are closed: the first one is read from
the depth at which the group is, all others from outside brackets. -/
lemma splitGroup_pieces {Q : Char → Prop} {depth : Nat} {cs : List Char}
    (hclosed : cs.foldl bracketDepth depth = 0) (hQ : ∀ c ∈ outsideBrackets depth cs, Q c) :
    ∃ first rest, splitGroup depth cs = first :: rest ∧
      (first.foldl bracketDepth depth = 0 ∧ ∀ c ∈ outsideBrackets depth first, c ≠ ',' ∧ Q c) ∧
      ∀ piece ∈ rest, openBrackets piece = 0 ∧ ∀ c ∈ outsideBrackets 0 piece, c ≠ ',' ∧ Q c := by
  induction cs generalizing depth with
  | nil => exact ⟨[], [], rfl, ⟨hclosed, by simp [outsideBrackets]⟩, by simp⟩
  | cons c cs ih =>
    obtain ⟨hc, hrest⟩ := forall_outsideBrackets_cons.mp hQ
    rw [List.foldl_cons] at hclosed
    obtain ⟨first, rest, hsplit, hfirst, hothers⟩ := ih hclosed hrest
    rw [splitGroup]
    split
    · next hcomma =>
      obtain ⟨rfl, rfl⟩ := hcomma
      refine ⟨[], first :: rest, congrArg _ hsplit, ⟨rfl, by simp [outsideBrackets]⟩, ?_⟩
      intro piece hpiece
      rcases List.mem_cons.mp hpiece with rfl | hpiece
      · exact hfirst
      · exact hothers piece hpiece
    · next hcomma =>
      refine ⟨c :: first, rest, by rw [hsplit]; rfl, ⟨hfirst.1, ?_⟩, hothers⟩
      refine forall_outsideBrackets_cons.mpr ⟨fun hdepth => ⟨?_, hc hdepth⟩, hfirst.2⟩
      exact fun hcomma' => hcomma ⟨hcomma', hdepth⟩

/-- The selectors of a group without `&` in which all brackets are closed. -/
lemma undivided_of_mem_parseGroup {text : String} (hclosed : openBrackets text.toList = 0)
    (hparent : ∀ c ∈ outsideBrackets 0 text.toList, c ≠ '&') {s : Selector}
    (hs : s ∈ parseGroup text) : s.Undivided ∧ s.elements ≠ [] := by
  obtain ⟨hmem, hne⟩ := List.mem_filter.mp hs
  obtain ⟨piece, hpiece, rfl⟩ := List.mem_map.mp hmem
  obtain ⟨first, rest, hsplit, hfirst, hothers⟩ := splitGroup_pieces hclosed hparent
  rw [hsplit] at hpiece
  have hgood : openBrackets piece = 0 ∧ ∀ c ∈ outsideBrackets 0 piece, c ≠ ',' ∧ c ≠ '&' := by
    rcases List.mem_cons.mp hpiece with rfl | hpiece
    · exact hfirst
    · exact hothers piece hpiece
  refine ⟨undivided_ofChars (fun c hc => (hgood.2 c hc).2) hgood.1 fun c hc => (hgood.2 c hc).1, ?_⟩
  simpa [isEmpty] using hne

/-- Texts behind commas and blanks are read as each would be by itself. A text has closed brackets and no
comma outside them, so the group is divided at the commas between the texts, and a blank in front of a
text is not read. -/
lemma map_ofChars_splitGroup {blank : Char} (hblank : Text.isBlank blank = true)
    {texts : List (List Char)} (hne : texts ≠ [])
    (htexts : ∀ t ∈ texts, openBrackets t = 0 ∧ ∀ c ∈ outsideBrackets 0 t, c ≠ ',') :
    (splitGroup 0 ([',', blank].intercalate texts)).map ofChars = texts.map ofChars := by
  -- behind the first comma, a text has a blank in front
  have key : ∀ lead : List Char, lead = [] ∨ lead = [blank] →
      (splitGroup 0 (lead ++ [',', blank].intercalate texts)).map ofChars = texts.map ofChars := by
    induction texts with
    | nil => exact absurd rfl hne
    | cons t texts ih =>
      intro lead hlead
      obtain ⟨hclosed, hcomma⟩ := htexts t List.mem_cons_self
      have hstart : lead.foldl bracketDepth 0 = 0 := by
        rcases hlead with rfl | rfl
        · rfl
        · exact bracketDepth_of_isBlank hblank 0
      have hleadClosed : (lead ++ t).foldl bracketDepth 0 = 0 := by
        rw [List.foldl_append, hstart]
        exact hclosed
      have hleadComma : ∀ c ∈ outsideBrackets 0 (lead ++ t), c ≠ ',' := by
        intro c hc
        rw [outsideBrackets_append, hstart] at hc
        rcases List.mem_append.mp hc with hc | hc
        · rcases hlead with rfl | rfl
          · cases hc
          · rw [outsideBrackets, if_pos rfl, outsideBrackets, List.mem_singleton] at hc
            rintro rfl
            rw [← hc] at hblank
            exact absurd hblank (by decide)
        · exact hcomma c hc
      have hread : ofChars (lead ++ t) = ofChars t := by
        rcases hlead with rfl | rfl
        · rfl
        · exact ofChars_cons_of_isBlank hblank t
      cases texts with
      | nil =>
        rw [List.intercalate_singleton, splitGroup_of_undivided hleadComma]
        simp [hread]
      | cons t' texts =>
        have hrest := ih (by simp) (fun t ht => htexts t (List.mem_cons_of_mem _ ht)) [blank] (.inr rfl)
        have htext : lead ++ [',', blank].intercalate (t :: t' :: texts) =
            (lead ++ t) ++ ',' :: ([blank] ++ [',', blank].intercalate (t' :: texts)) := by
          simp [List.intercalate_cons_cons]
        rw [htext, splitGroup_append_comma _ hleadComma hleadClosed, List.map_cons, hrest, hread,
          List.map_cons (l := t' :: texts)]
  exact key [] (.inl rfl)

end Selector

/-! ## Ways inward

A path is printed selector by selector, and what is printed is read as one selector. The places to look at
are those where one selector ends and the next one begins: each begins with a combinator that reading
tells apart from what was before. -/

namespace Path

/-- The selector with all elements of a path. -/
def selector (path : Path) : Selector :=
  ⟨path.flatMap Selector.elements⟩

/-- The elements of a path are those of its first selector and then those of the others. -/
lemma elements_selector_cons (s : Selector) (path : Path) :
    (selector (s :: path)).elements = s.elements ++ (selector path).elements :=
  List.flatMap_cons

/-- The text of a path is that of its selectors, joined. -/
lemma toCss_selector (path : Path) : (selector path).toCss = String.join (path.map Selector.toCss) := by
  rw [← String.toList_inj, Selector.toList_toCss, String.toList_join, List.flatMap_map, selector,
    List.flatMap_assoc]
  simp only [Selector.toList_toCss]

/-- The text that is printed for a path is trimmed. -/
lemma toList_toCss (path : Path) : path.toCss.toList = Text.trimChars (selector path).toCss.toList := by
  rw [toCss_selector, toCss, Text.trim, String.toList_ofList]

/-- Selectors that are read back make a path that is. What is left to see is where two of them meet: the
first element of each is attached by a combinator, which ends the element before it. -/
lemma rereads_selector {path : Path} (h : ∀ s ∈ path, s.Rereads) : (selector path).Rereads := by
  induction path with
  | nil => exact ⟨⟨by simp [selector], .nil, by simp [selector]⟩, by simp [selector]⟩
  | cons s path ih =>
    have hs := h s List.mem_cons_self
    have hrest := ih fun t ht => h t (List.mem_cons_of_mem s ht)
    have hmem : ∀ {P : Element → Prop}, (∀ e ∈ s.elements, P e) → (∀ e ∈ (selector path).elements, P e) →
        ∀ e ∈ (selector (s :: path)).elements, P e := by
      intro P h₁ h₂ e he
      rw [elements_selector_cons] at he
      rcases List.mem_append.mp he with he | he
      · exact h₁ e he
      · exact h₂ e he
    refine ⟨⟨hmem hs.canonical.solid hrest.canonical.solid, ?_, ?_⟩, hmem hs.closed hrest.closed⟩
    · rw [elements_selector_cons]
      refine List.isChain_append.mpr ⟨hs.canonical.joined, hrest.canonical.joined, ?_⟩
      intro a ha b hb
      exact ⟨hs.closed a (List.mem_of_getLast? ha), fun hk =>
        absurd hk (hrest.canonical.attached b hb)⟩
    · intro e he
      rw [elements_selector_cons, List.head?_append] at he
      cases hfirst : s.elements.head? with
      | some e' =>
        rw [hfirst] at he
        exact hs.canonical.attached e (by rw [hfirst]; exact he)
      | none =>
        rw [hfirst] at he
        exact hrest.canonical.attached e he

/-- A path of selectors that can stand between commas can stand there. -/
lemma undivided_selector {path : Path} (h : ∀ s ∈ path, s.Undivided) :
    (selector path).Undivided := by
  refine ⟨rereads_selector fun s hs => (h s hs).toRereads, fun e he => ?_⟩
  obtain ⟨s, hs, hmem⟩ := List.mem_flatMap.mp he
  exact (h s hs).comma e hmem

/-- A header with several paths is read as the paths are: it is divided at the commas between them and
nowhere else. -/
lemma parseGroup_header_of_undivided {paths : List Path} (hne : paths ≠ [])
    (hpaths : ∀ path ∈ paths, (selector path).Undivided ∧ (selector path).elements ≠ []) :
    Selector.parseGroup (header paths) = paths.map selector := by
  obtain ⟨blank, hblank, hsep⟩ : ∃ blank, Text.isBlank blank = true ∧
      (if 3 < paths.length then ",\n" else ", ").toList = [',', blank] := by
    split
    · exact ⟨'\n', by decide, rfl⟩
    · exact ⟨' ', by decide, rfl⟩
  have htexts : ∀ t ∈ (paths.map toCss).map String.toList,
      openBrackets t = 0 ∧ ∀ c ∈ outsideBrackets 0 t, c ≠ ',' := by
    intro t ht
    simp only [List.map_map, List.mem_map, Function.comp_apply] at ht
    obtain ⟨path, hpath, rfl⟩ := ht
    rw [toList_toCss]
    exact (hpaths path hpath).1.text_trimChars
  have hread : ((paths.map toCss).map String.toList).map Selector.ofChars = paths.map selector := by
    rw [List.map_map, List.map_map]
    refine List.map_congr_left fun path hpath => ?_
    rw [Function.comp_apply, Function.comp_apply, toList_toCss]
    exact (hpaths path hpath).1.ofChars_trimChars
  rw [Selector.parseGroup, header, String.toList_intercalate, hsep,
    Selector.map_ofChars_splitGroup hblank (by simpa using hne) htexts, hread, List.filter_eq_self]
  intro s hs
  obtain ⟨path, hpath, rfl⟩ := List.mem_map.mp hs
  simpa [Selector.isEmpty] using (hpaths path hpath).2

/-! ### The order of the paths -/

/-- Without `&` after its first element, a selector is added at the inner end. -/
lemma extend_of_tail (path : Path) {s : Selector} (h : ∀ e ∈ s.elements.tail, e.combinator ≠ .parent) :
    extend path s = path ++ [s] := by
  have hnone : s.splitAtParent? = none := by
    unfold Selector.splitAtParent?
    split
    · rfl
    · next first rest helements =>
      have hall : ∀ e ∈ rest, decide (e.combinator ≠ .parent) = true := by
        intro e he
        exact decide_eq_true (h e (by rw [helements]; exact he))
      rw [List.span_eq_takeWhile_dropWhile, List.takeWhile_eq_self_iff.mpr hall,
        List.dropWhile_eq_nil_iff.mpr hall]
  rw [extend, hnone]

/-- Sections of a list with one more group at the inner end: that group varies slowest. -/
lemma sections_concat (groups : List (List Selector)) (group : List Selector) :
    (groups ++ [group]).sections = group.flatMap fun s => groups.sections.map (· ++ [s]) := by
  induction groups with
  | nil => simp [List.sections, List.map_eq_flatMap]
  | cons g groups ih =>
    rw [List.cons_append, List.sections, ih, List.flatMap_assoc]
    refine List.flatMap_congr fun s _ => ?_
    rw [List.sections, List.flatMap_map, List.map_flatMap]
    simp [Function.comp_def]

/-- There is a section if no group is empty. -/
lemma sections_ne_nil {groups : List (List Selector)} (h : ∀ group ∈ groups, group ≠ []) :
    groups.sections ≠ [] := by
  -- the first selector of each group
  refine List.ne_nil_of_mem (a := groups.map fun g => g.head?.getD ⟨[]⟩)
    (List.mem_sections.mpr (List.forall₂_map_left_iff.mpr (List.forall₂_same.mpr ?_)))
  intro g hg
  obtain ⟨s, rest, rfl⟩ := List.exists_cons_of_ne_nil (h g hg)
  exact List.mem_cons_self

/-- What holds of the selectors of all groups holds of the selectors of a section. -/
lemma forall_mem_of_mem_sections {P : Selector → Prop} {groups : List (List Selector)} {path : Path}
    (h : ∀ group ∈ groups, ∀ s ∈ group, P s) (hpath : path ∈ groups.sections) : ∀ s ∈ path, P s := by
  have hmem := List.mem_sections.mp hpath
  clear hpath
  induction hmem with
  | nil => simp
  | cons hs _ ih =>
    refine List.forall_mem_cons.mpr ⟨h _ List.mem_cons_self _ hs, ?_⟩
    exact ih fun group hgroup => h group (List.mem_cons_of_mem _ hgroup)

/-- **Without `&`, the paths of a nested block are the sections of the groups around it.** -/
theorem foldl_combine_eq_sections {groups : List (List Selector)} (hne : groups ≠ [])
    (hgroups : ∀ group ∈ groups, group ≠ [] ∧ ∀ s ∈ group, s.Canonical) :
    groups.foldl combine [] = groups.sections := by
  induction groups using List.reverseRecOn with
  | nil => exact absurd rfl hne
  | append_singleton groups group ih =>
    have hgroup := hgroups group (by simp)
    rw [List.foldl_append, List.foldl_cons, List.foldl_nil, sections_concat]
    by_cases hfirst : groups = []
    · subst hfirst
      simp [combine, List.sections, List.map_eq_flatMap]
    · have hbefore := fun g hg => hgroups g (List.mem_append_left [group] hg)
      have hsome := sections_ne_nil fun g hg => (hbefore g hg).1
      rw [ih hfirst hbefore, combine, if_neg (by simpa using hsome)]
      refine List.flatMap_congr fun s hs => List.map_congr_left fun path _ => ?_
      exact extend_of_tail path fun e he => ((hgroup.2 s hs).solid e (List.mem_of_mem_tail he)).notParent

/-- The place of the path that takes from each group, outermost first, the selector at a given place:
the outermost group counts units, the next one as many units as that group has selectors, and so on. -/
def place : List (List Selector) → List Nat → Nat
  | group :: groups, i :: is => i + group.length * place groups is
  | _, _ => 0

/-- Where each element of `l` is replaced by a copy of `g`, the copies are of one length, so places are
found by counting. -/
lemma getElem?_flatMap_map {α β γ : Type} (g : List α) (f : β → α → γ) {l : List β} {i j : Nat} {a : α}
    {b : β} (ha : g[i]? = some a) (hb : l[j]? = some b) :
    (l.flatMap fun b => g.map (f b))[i + g.length * j]? = some (f b a) := by
  have hi : i < g.length := (List.getElem?_eq_some_iff.mp ha).1
  induction l generalizing j with
  | nil => cases hb
  | cons b' l ih =>
    rw [List.flatMap_cons]
    cases j with
    | zero =>
      cases hb
      rw [Nat.mul_zero, Nat.add_zero, List.getElem?_append_left (by simpa using hi), List.getElem?_map,
        ha]
      rfl
    | succ j =>
      have hle : (g.map (f b')).length ≤ i + g.length * (j + 1) := by
        rw [List.length_map, Nat.mul_succ]
        omega
      have hindex : i + g.length * (j + 1) - (g.map (f b')).length = i + g.length * j := by
        rw [List.length_map, Nat.mul_succ]
        omega
      rw [List.getElem?_append_right hle, hindex]
      exact ih hb

/-- Each section has its place, with the outermost group varying fastest. -/
lemma getElem?_sections {groups : List (List Selector)} {picks : List (Nat × Selector)}
    (h : List.Forall₂ (fun group pick => group[pick.1]? = some pick.2) groups picks) :
    groups.sections[place groups (picks.map Prod.fst)]? = some (picks.map Prod.snd) := by
  induction h with
  | nil => rfl
  | cons hpick _ ih =>
    rw [List.sections, List.map_cons, List.map_cons, place]
    exact getElem?_flatMap_map _ (fun path s => s :: path) hpick ih

/-- There are as many sections as the lengths of the groups multiply to. -/
lemma length_sections (groups : List (List Selector)) :
    groups.sections.length = (groups.map List.length).prod := by
  induction groups with
  | nil => rfl
  | cons group groups ih =>
    rw [List.sections, List.length_flatMap]
    simp [ih, Nat.mul_comm]

/-- **A header says what the selector groups around a block say.** Take groups without `&` in which all
brackets are closed. Combining them gives one path for each way to take one selector from each group,
the innermost group varying slowest and the outermost fastest; and the header of these paths reads as
the selectors that have the elements of each path, in the same order. -/
theorem parseGroup_header {texts : List String} (hne : texts ≠ [])
    (htexts : ∀ t ∈ texts, Selector.parseGroup t ≠ [] ∧ '&' ∉ outsideBrackets 0 t.toList ∧
      openBrackets t.toList = 0) :
    let groups := texts.map Selector.parseGroup
    let paths := groups.foldl combine []
    paths.length = (groups.map List.length).prod ∧
    (∀ picks : List (Nat × Selector),
      List.Forall₂ (fun group pick => group[pick.1]? = some pick.2) groups picks →
        paths[place groups (picks.map Prod.fst)]? = some (picks.map Prod.snd)) ∧
    Selector.parseGroup (header paths) =
      paths.map fun path => ⟨path.flatMap Selector.elements⟩ := by
  intro groups paths
  have hselectors : ∀ group ∈ groups, ∀ s ∈ group, s.Undivided ∧ s.elements ≠ [] := by
    intro group hgroup s hs
    obtain ⟨t, ht, rfl⟩ := List.mem_map.mp hgroup
    obtain ⟨-, hparent, hclosed⟩ := htexts t ht
    exact Selector.undivided_of_mem_parseGroup hclosed (fun c hc hc' => hparent (hc' ▸ hc)) hs
  have hgroups : ∀ group ∈ groups, group ≠ [] ∧ ∀ s ∈ group, s.Canonical := by
    intro group hgroup
    refine ⟨?_, fun s hs => (hselectors group hgroup s hs).1.canonical⟩
    obtain ⟨t, ht, rfl⟩ := List.mem_map.mp hgroup
    exact (htexts t ht).1
  have hsections : paths = groups.sections :=
    foldl_combine_eq_sections (by simpa [groups] using hne) hgroups
  rw [hsections]
  refine ⟨length_sections groups, fun picks hpicks => getElem?_sections hpicks, ?_⟩
  refine parseGroup_header_of_undivided (sections_ne_nil fun g hg => (hgroups g hg).1) ?_
  intro path hpath
  have hpart := forall_mem_of_mem_sections hselectors hpath
  refine ⟨undivided_selector fun s hs => (hpart s hs).1, ?_⟩
  -- there is a first group, and what is taken from it is not empty
  cases path with
  | nil =>
    have hlength := List.mem_sections_length hpath
    exact absurd (List.length_eq_zero_iff.mp hlength.symm) (by simpa [groups] using hne)
  | cons s path =>
    rw [elements_selector_cons]
    exact List.append_ne_nil_of_left_ne_nil (hpart s List.mem_cons_self).2 _

/-- A comma in brackets belongs to its selector, and a sign in front of a nested selector stays. -/
theorem parseGroup_header_bracketSample :
    let texts := ["h1, [a=',']", "> a, p"]
    let groups := texts.map Selector.parseGroup
    let paths := groups.foldl combine []
    (∀ t ∈ texts, Selector.parseGroup t ≠ [] ∧ '&' ∉ outsideBrackets 0 t.toList ∧
      openBrackets t.toList = 0) ∧
    paths.length = 4 ∧
    paths[place groups [1, 0]]? = some [⟨[⟨.descendant, "[a=',']"⟩]⟩, ⟨[⟨.child, "a"⟩]⟩] ∧
    Selector.parseGroup (header paths) =
      paths.map fun path => ⟨path.flatMap Selector.elements⟩ := by
  intro texts groups paths
  have htexts : ∀ t ∈ texts, Selector.parseGroup t ≠ [] ∧ '&' ∉ outsideBrackets 0 t.toList ∧
      openBrackets t.toList = 0 := by decide +kernel
  have hne : texts ≠ [] := by decide
  obtain ⟨hlength, hplace, hheader⟩ := parseGroup_header hne htexts
  have hpicks : List.Forall₂ (fun group (pick : Nat × Selector) => group[pick.1]? = some pick.2) groups
      [(1, ⟨[⟨.descendant, "[a=',']"⟩]⟩), (0, ⟨[⟨.child, "a"⟩]⟩)] :=
    .cons (by decide +kernel) (.cons (by decide +kernel) .nil)
  exact ⟨htexts, hlength.trans (by decide +kernel), hplace _ hpicks, hheader⟩

end Path

end Stylesheet
