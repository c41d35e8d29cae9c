import Mathlib.Data.List.Chain
import Stylesheet.Selector.Parser

/-!
# The text of a selector

A selector that was read from a text, and that has no `&`, can be read back from its printed text. So
two such selectors with one text are the same selector, and nothing is confused by looking selectors
up under their texts.

The proof goes through the form that such selectors have. An element is *solid* if reading it never
comes to an end inside it, and two elements *join* if reading the second one ends the first. A selector
is `Canonical` if its elements are solid and each joins the next.

* **What is read is canonical** (`Selector.canonical_parse`): `Scan.Good` is kept by each character.
* **What is canonical is read back** (`Selector.Canonical.ofChars_toCss`), element by element
  (`Scan.reading_next`), and every tail of it is canonical too (`Selector.Canonical.of_hasTail`).
-/

namespace Stylesheet

/-- Outside brackets, the character ends the element at hand and belongs to none. -/
def Separates (c : Char) : Prop :=
  Text.isBlank c = true ∨ c = '>' ∨ c = '+' ∨ c = '~' ∨ c = '&'

/-- Outside brackets, the character begins a part of a compound after an element that ends in
`last`. -/
def Begins (last : Option Char) (c : Char) : Prop :=
  c = '.' ∨ c = '#' ∨ c = '[' ∨ c = ':' ∧ last ≠ some ':'

/-- A character that begins a part of a compound belongs to it. -/
lemma Begins.not_separates {last : Option Char} {c : Char} (h : Begins last c) : ¬Separates c := by
  unfold Separates
  rcases h with rfl | rfl | rfl | ⟨rfl, -⟩ <;> decide

/-- The number of brackets that characters leave open. -/
def openBrackets (cs : List Char) : Nat :=
  cs.foldl bracketDepth 0

/-- The characters of one element: reading them never comes to an end before the last one. -/
inductive Solid : List Char → Prop
  | single {c : Char} (h : ¬Separates c) : Solid [c]
  | snoc {v : List Char} {c : Char} (h : Solid v)
      (hc : 0 < openBrackets v ∨ ¬Separates c ∧ ¬Begins v.getLast? c) : Solid (v ++ [c])

/-- One more character opens a bracket, closes one or does neither. -/
lemma openBrackets_snoc (v : List Char) (c : Char) :
    openBrackets (v ++ [c]) = bracketDepth (openBrackets v) c := by
  simp [openBrackets]

/-- An element has a character. -/
lemma Solid.ne_nil {v : List Char} (h : Solid v) : v ≠ [] := by
  cases h <;> simp

/-- An element does not begin with a separator. -/
lemma Solid.not_separates {v : List Char} (h : Solid v) {c : Char} (hc : v.head? = some c) :
    ¬Separates c := by
  induction h with
  | single h =>
    cases hc
    exact h
  | snoc h _ ih =>
    rw [List.head?_append_of_ne_nil _ h.ne_nil] at hc
    exact ih hc

/-! ## Reading one character

What a scan does with a character depends on whether brackets are open, whether an element is at hand, and
whether the character separates elements or begins one. There is one lemma for each case. -/

namespace Scan

variable {s : Scan} {c : Char}

/-- An element with characters is completed. -/
lemma flush_of_value_ne_nil (h : s.value ≠ []) :
    s.flush = { s with
      elements := s.elements ++ [⟨s.combinator, String.ofList s.value⟩]
      combinator := .compound
      value := []
      started := false } := by
  have hvalue : (s.started || !s.value.isEmpty) = true := by simp [h]
  rw [flush, if_pos hvalue]

/-- An element without characters that no `&` has started is none. -/
lemma flush_of_value_eq_nil (h : s.value = []) (hstarted : s.started = false) : s.flush = s := by
  have hvalue : ¬(s.started || !s.value.isEmpty) = true := by simp [h, hstarted]
  rw [flush, if_neg hvalue]

/-- Completing an element leaves the brackets as they are. -/
lemma depth_flush (s : Scan) : s.flush.depth = s.depth := by
  unfold flush
  split <;> rfl

/-- Beginning an element leaves the brackets as they are. -/
lemma depth_begin (s : Scan) (c : Char) : (s.begin c).depth = s.depth := by
  unfold begin push
  split
  · rfl
  · exact depth_flush s

/-- Outside brackets, a character that begins a part completes the element at hand and starts the next
one. -/
lemma readPlain_of_begins (hdepth : s.depth = 0) (h : Begins s.previous c) :
    s.readPlain c = { s.begin c with depth := bracketDepth 0 c } := by
  have hbegin : ∀ c, s.begin c = { s.begin c with depth := 0 } := by
    intro c
    rw [← hdepth, ← depth_begin s c]
  rcases h with rfl | rfl | rfl | ⟨rfl, hprevious⟩
  · exact hbegin '.'
  · exact hbegin '#'
  · rfl
  · show (if s.previous = some ':' then s.push ':' else s.begin ':') = _
    rw [if_neg hprevious]
    exact hbegin ':'

/-- Outside brackets, a character that neither separates nor begins is added to the element at hand. The
second of two colons is such a character, and so is an opening parenthesis. -/
lemma readPlain_of_continues (hdepth : s.depth = 0) (hseparates : ¬Separates c)
    (hbegins : ¬Begins s.previous c) :
    s.readPlain c = { s.push c with depth := bracketDepth 0 c } := by
  simp only [Separates, Begins, not_or, not_and, not_not] at hseparates hbegins
  obtain ⟨hblank, hchild, hadjacent, hsibling, hparent⟩ := hseparates
  obtain ⟨hdot, hhash, hbracket, hcolon⟩ := hbegins
  unfold readPlain
  rw [if_neg hblank]
  split
  · exact absurd rfl hchild
  · exact absurd rfl hadjacent
  · exact absurd rfl hsibling
  · exact absurd rfl hparent
  · rw [if_pos (hcolon rfl)]
    show _ = { s.push ':' with depth := 0 }
    rw [← hdepth]
    rfl
  · exact absurd rfl hdot
  · exact absurd rfl hhash
  · exact absurd rfl hbracket
  · rfl
  · next hopen =>
    have hc : bracketDepth 0 c = s.depth := by
      unfold bracketDepth
      rw [if_neg (not_or.mpr ⟨hbracket, hopen⟩), hdepth]
      split <;> rfl
    rw [hc]
    rfl

/-- Outside brackets, a blank ends the element at hand. -/
lemma step_of_blank (hdepth : s.depth = 0) (h : Text.isBlank c = true) :
    s.step c = { s.separate with previous := some c } := by
  unfold step readPlain
  rw [if_neg (by omega), if_pos h]

/-- A character that neither ends the element at hand nor begins another one is added to it. -/
lemma step_of_continues (h : 0 < s.depth ∨ ¬Separates c ∧ ¬Begins s.previous c) :
    s.step c = { s with
      value := s.value ++ [c]
      depth := bracketDepth s.depth c
      previous := some c } := by
  unfold step
  by_cases hdepth : 0 < s.depth
  · rw [if_pos hdepth]
    rfl
  · obtain ⟨hseparates, hbegins⟩ := h.resolve_left hdepth
    have hdepth : s.depth = 0 := Nat.eq_zero_of_not_pos hdepth
    rw [if_neg (by omega), readPlain_of_continues hdepth hseparates hbegins, hdepth]
    rfl

/-- A character that begins a part of a compound ends the element before it. -/
lemma step_of_begins (hvalue : s.value ≠ []) (hdepth : s.depth = 0) (h : Begins s.previous c) :
    s.step c = { s with
      elements := s.elements ++ [⟨s.combinator, String.ofList s.value⟩]
      combinator := .compound
      value := [c]
      started := false
      depth := bracketDepth 0 c
      previous := some c } := by
  have hvalue' : ¬s.value.isEmpty = true := by simpa using hvalue
  unfold step
  rw [if_neg (by omega), readPlain_of_begins hdepth h, begin, if_neg hvalue',
    flush_of_value_ne_nil hvalue]
  rfl

/-- The first character of an element. -/
lemma step_of_value_eq_nil (hvalue : s.value = []) (hdepth : s.depth = 0) (h : ¬Separates c) :
    s.step c = { s with
      value := [c]
      depth := bracketDepth 0 c
      previous := some c } := by
  by_cases hbegins : Begins s.previous c
  · unfold step
    rw [if_neg (by omega), readPlain_of_begins hdepth hbegins, begin, if_pos (by simp [hvalue]), push,
      hvalue]
    rfl
  · rw [step_of_continues (.inr ⟨h, hbegins⟩), hvalue, hdepth]
    rfl

/-- The rest of an element after its first character. -/
lemma foldl_step_of_solid {v : List Char} (h : Solid v) {t : Scan}
    (hstart : ∀ c, v.head? = some c →
      s.step c = { t with value := [c], depth := bracketDepth 0 c, previous := some c }) :
    v.foldl step s =
      { t with value := v, depth := openBrackets v, previous := v.getLast? } := by
  induction h with
  | @single c _ => exact hstart c rfl
  | @snoc v c h hc ih =>
    rw [List.head?_append_of_ne_nil _ h.ne_nil] at hstart
    rw [List.foldl_append, ih hstart, List.foldl_cons, List.foldl_nil, step_of_continues hc,
      openBrackets_snoc, List.getLast?_concat]

end Scan

/-! ## Canonical selectors

What is asked of the elements is local: each by itself, and each with its neighbour. So dropping elements
at the front keeps it, but for the first element that is left, which may have to be attached anew. -/

/-- An element that is read as one, and is no `&`. -/
structure Element.Solid (e : Element) : Prop where
  /-- Its characters belong together. -/
  value : Stylesheet.Solid e.value.toList
  /-- It is no reference to the enclosing selector. -/
  notParent : e.combinator ≠ .parent

/-- After the text of `a`, the text of `b` is read as a new element. -/
structure Element.Joins (a b : Element) : Prop where
  /-- No bracket is open. -/
  closed : openBrackets a.value.toList = 0
  /-- Where there is no sign between them, the first character of `b` ends `a`. -/
  begins : b.combinator = .compound → ∀ c, b.value.toList.head? = some c →
    Begins a.value.toList.getLast? c

/-- The form of selectors that are read from a text without `&`. -/
structure Selector.Canonical (s : Selector) : Prop where
  /-- The elements are solid. -/
  solid : ∀ e ∈ s.elements, e.Solid
  /-- Each joins the next. -/
  joined : s.elements.IsChain Element.Joins
  /-- The first element is attached to what encloses the block. -/
  attached : ∀ e ∈ s.elements.head?, e.combinator ≠ .compound

/-- Solid elements that join make a canonical selector. -/
lemma Selector.canonical_ofElements {l : List Element} (hsolid : ∀ e ∈ l, e.Solid)
    (hjoined : l.IsChain Element.Joins) : (Selector.ofElements l).Canonical := by
  match l with
  | [] => exact ⟨hsolid, hjoined, by simp [Selector.ofElements]⟩
  | ⟨.compound, value⟩ :: rest =>
    have hfirst := hsolid _ List.mem_cons_self
    rw [List.isChain_cons] at hjoined
    refine ⟨?_, ?_, by simp [Selector.ofElements]⟩
    · intro e he
      rcases List.mem_cons.mp he with rfl | he
      · exact ⟨hfirst.value, nofun⟩
      · exact hsolid e (List.mem_cons_of_mem _ he)
    · refine List.isChain_cons.mpr ⟨?_, hjoined.2⟩
      intro e he
      exact ⟨(hjoined.1 e he).closed, (hjoined.1 e he).begins⟩
  | ⟨.descendant, _⟩ :: _ | ⟨.child, _⟩ :: _ | ⟨.adjacent, _⟩ :: _ | ⟨.sibling, _⟩ :: _ |
      ⟨.parent, _⟩ :: _ => exact ⟨hsolid, hjoined, by simp [Selector.ofElements]⟩

/-- Every tail of a canonical selector is canonical. -/
theorem Selector.Canonical.tail {s t : Selector} (h : s.Canonical) (ht : s.tail? = some t) :
    t.Canonical := by
  obtain ⟨elements⟩ := s
  match elements, ht with
  | _ :: second :: rest, ht =>
    cases ht
    exact Selector.canonical_ofElements (fun e he => h.solid e (List.mem_cons_of_mem _ he))
      h.joined.tail

/-- What is left of a selector after some of its first elements, none or more, are dropped. -/
inductive Selector.HasTail (s : Selector) : Selector → Prop
  | self : Selector.HasTail s s
  | tail {t u : Selector} (h : Selector.HasTail s t) (hu : t.tail? = some u) : Selector.HasTail s u

/-- What is left of a canonical selector is canonical. -/
lemma Selector.Canonical.of_hasTail {s t : Selector} (h : s.Canonical) (ht : s.HasTail t) :
    t.Canonical := by
  induction ht with
  | self => exact h
  | tail _ hu ih => exact ih.tail hu

/-! ## Reading back

The text of an element is read in one go, and after it the scan is in a state that depends only on the
elements so far (`Scan.reading`). So a selector is read back element by element. -/

namespace Scan

/-- The scan that has completed some elements and read all of the next one. -/
def reading (done : List Element) (e : Element) : Scan where
  elements := done
  combinator := e.combinator
  value := e.value.toList
  depth := openBrackets e.value.toList
  previous := e.value.toList.getLast?

/-- A scan that has read all of its last element ends with it. -/
lemma finish_reading {e : Element} (he : e.Solid) (done : List Element) :
    (reading done e).finish = Selector.ofElements (done ++ [e]) := by
  have hvalue : (reading done e).value ≠ [] := he.value.ne_nil
  rw [finish, flush_of_value_ne_nil hvalue]
  show Selector.ofElements (done ++ [⟨e.combinator, String.ofList e.value.toList⟩]) = _
  rw [String.ofList_toList]

/-- The text of an element that is attached by a sign, read after that sign. -/
lemma foldl_step_value {e : Element} (he : e.Solid) {s : Scan} (hvalue : s.value = [])
    (hdepth : s.depth = 0) (hstarted : s.started = false) (hcombinator : s.combinator = e.combinator) :
    e.value.toList.foldl step s = reading s.elements e := by
  rw [foldl_step_of_solid he.value fun c hc =>
    step_of_value_eq_nil hvalue hdepth (he.value.not_separates hc), reading, hstarted, hcombinator]

/-- A blank ends the element at hand, and the next one descends from it. -/
lemma step_blank_reading {a : Element} (ha : a.Solid) (hclosed : openBrackets a.value.toList = 0)
    (done : List Element) :
    (reading done a).step ' ' =
      { elements := done ++ [a], combinator := .descendant, previous := some ' ' } := by
  have hvalue : (reading done a).value ≠ [] := ha.value.ne_nil
  rw [step_of_blank hclosed (by decide), separate, flush_of_value_ne_nil hvalue]
  simp [reading, hclosed]

/-- A blank after a sign changes nothing. -/
lemma step_blank_of_sign (l : List Element) {k : Combinator} (hk : k ≠ .compound) (p : Option Char) :
    step { elements := l, combinator := k, previous := p } ' ' =
      { elements := l, combinator := k, previous := some ' ' } := by
  rw [step_of_blank rfl (by decide), separate, flush_of_value_eq_nil rfl rfl]
  simp [hk]

/-- The sign of a combinator, read after a blank. -/
lemma foldl_step_sign (l : List Element) {k : Combinator} {sign : Char}
    (hk : k ≠ .compound)
    (hsign : step { elements := l, combinator := .descendant, previous := some ' ' } sign =
      { elements := l, combinator := k, previous := some sign }) :
    [sign, ' '].foldl step { elements := l, combinator := .descendant, previous := some ' ' } =
      { elements := l, combinator := k, previous := some ' ' } := by
  rw [List.foldl_cons, hsign, List.foldl_cons, step_blank_of_sign l hk, List.foldl_nil]

/-- Reading an element after the sign that attaches it. -/
lemma reading_after_sign {a b : Element} (ha : a.Solid) (hb : b.Solid) (hjoin : a.Joins b)
    (done : List Element) {sign : Char} (htext : b.combinator.toCss.toList = [' ', sign, ' '])
    (hk : b.combinator ≠ .compound)
    (hsign : ∀ l, step { elements := l, combinator := .descendant, previous := some ' ' } sign =
      { elements := l, combinator := b.combinator, previous := some sign }) :
    b.value.toList.foldl step (b.combinator.toCss.toList.foldl step (reading done a)) =
      reading (done ++ [a]) b := by
  rw [htext, List.foldl_cons, step_blank_reading ha hjoin.closed, foldl_step_sign _ hk (hsign _)]
  exact foldl_step_value hb rfl rfl rfl rfl

/-- Reading one element after another. -/
lemma reading_next {a b : Element} (ha : a.Solid) (hb : b.Solid) (hjoin : a.Joins b)
    (done : List Element) :
    b.toCss.toList.foldl step (reading done a) = reading (done ++ [a]) b := by
  have hvalue : (reading done a).value ≠ [] := ha.value.ne_nil
  have htext : b.toCss.toList = b.combinator.toCss.toList ++ b.value.toList := String.toList_append
  rw [htext, List.foldl_append]
  cases hk : b.combinator with
  | compound =>
    show b.value.toList.foldl step (reading done a) = _
    rw [foldl_step_of_solid (t := { elements := done ++ [a] }) hb.value, reading, hk]
    intro c hc
    rw [step_of_begins hvalue hjoin.closed (hjoin.begins hk c hc)]
    simp [reading]
  | descendant =>
    show b.value.toList.foldl step ((reading done a).step ' ') = _
    rw [step_blank_reading ha hjoin.closed]
    exact foldl_step_value hb rfl rfl rfl hk.symm
  | parent => exact absurd hk hb.notParent
  | child | adjacent | sibling =>
    rw [← hk]
    refine reading_after_sign ha hb hjoin done (by rw [hk]; rfl) (by rw [hk]; nofun) fun l => ?_
    rw [hk]
    rfl

/-- Reading all that follows an element: the last one stays at hand. -/
lemma foldl_step_rest {a : Element} {rest : List Element} (hsolid : ∀ e ∈ a :: rest, e.Solid)
    (hjoined : (a :: rest).IsChain Element.Joins) (done : List Element) :
    ∃ before last, before ++ [last] = done ++ a :: rest ∧ last ∈ a :: rest ∧
      (rest.flatMap fun e => e.toCss.toList).foldl step (reading done a) = reading before last := by
  induction rest generalizing a done with
  | nil => exact ⟨done, a, rfl, List.mem_cons_self, rfl⟩
  | cons b rest ih =>
    obtain ⟨hjoin, hrest⟩ := List.isChain_cons_cons.mp hjoined
    have ha := hsolid a List.mem_cons_self
    have hb := hsolid b (List.mem_cons_of_mem a List.mem_cons_self)
    obtain ⟨before, last, hall, hlast, hread⟩ :=
      ih (fun e he => hsolid e (List.mem_cons_of_mem a he)) hrest (done ++ [a])
    refine ⟨before, last, ?_, List.mem_cons_of_mem a hlast, ?_⟩
    · rw [hall, List.append_assoc, List.singleton_append]
    · rw [List.flatMap_cons, List.foldl_append, reading_next ha hb hjoin, hread]

/-- Behind an element that was read whole, the texts of the others are read as these elements. -/
lemma finish_foldl_step {a : Element} {rest : List Element} (hsolid : ∀ e ∈ a :: rest, e.Solid)
    (hjoined : (a :: rest).IsChain Element.Joins) (done : List Element) :
    ((rest.flatMap fun e => e.toCss.toList).foldl step (reading done a)).finish =
      Selector.ofElements (done ++ a :: rest) := by
  obtain ⟨before, last, hall, hlast, hread⟩ := foldl_step_rest hsolid hjoined done
  rw [hread, finish_reading (hsolid last hlast), hall]

/-- Reading the first element of a selector: a descendant is not told from an element that is attached
to nothing. -/
lemma reading_first {a : Element} (ha : a.Solid) (hattached : a.combinator ≠ .compound) :
    a.toCss.toList.foldl step {} = reading [] a ∨
      a.combinator = .descendant ∧
        a.toCss.toList.foldl step {} = reading [] ⟨.compound, a.value⟩ := by
  have htext : a.toCss.toList = a.combinator.toCss.toList ++ a.value.toList := String.toList_append
  rw [htext, List.foldl_append]
  cases hk : a.combinator with
  | compound => exact absurd hk hattached
  | parent => exact absurd hk ha.notParent
  | descendant =>
    refine .inr ⟨rfl, ?_⟩
    exact foldl_step_value (e := ⟨.compound, a.value⟩) ⟨ha.value, nofun⟩ rfl rfl rfl rfl
  | child | adjacent | sibling => exact .inl (foldl_step_value ha rfl rfl rfl hk.symm)

end Scan

/-- **A canonical selector is read back from its text.** Each element is solid, so it is read to its end,
and it joins the one before, so that one is complete when it begins. -/
theorem Selector.Canonical.ofChars_toCss {s : Selector} (h : s.Canonical) :
    Selector.ofChars s.toCss.toList = s := by
  obtain ⟨elements⟩ := s
  cases elements with
  | nil => rfl
  | cons a rest =>
    have ha := h.solid a List.mem_cons_self
    have hattached := h.attached a rfl
    have htext : (Selector.mk (a :: rest)).toCss.toList =
        a.toCss.toList ++ rest.flatMap fun e => e.toCss.toList := by
      simp [Selector.toCss, List.flatMap_map]
    rw [Selector.ofChars, htext, List.foldl_append]
    rcases Scan.reading_first ha hattached with hfirst | ⟨hk, hfirst⟩
    · rw [hfirst, Scan.finish_foldl_step h.solid h.joined]
      obtain ⟨k, value⟩ := a
      cases k with
      | compound => exact absurd rfl hattached
      | _ => rfl
    · -- the first element is read as attached to nothing, and becomes a descendant in the end
      obtain ⟨k, value⟩ := a
      cases hk
      have hsolid : ∀ e ∈ Element.mk .compound value :: rest, e.Solid := by
        intro e he
        rcases List.mem_cons.mp he with rfl | he
        · exact ⟨ha.value, nofun⟩
        · exact h.solid e (List.mem_cons_of_mem _ he)
      have hjoined : (Element.mk .compound value :: rest).IsChain Element.Joins := by
        obtain ⟨hjoin, hrest⟩ := List.isChain_cons.mp h.joined
        exact List.isChain_cons.mpr
          ⟨fun e he => ⟨(hjoin e he).closed, (hjoin e he).begins⟩, hrest⟩
      rw [hfirst, Scan.finish_foldl_step hsolid hjoined]
      rfl

/-- Canonical selectors with one text are one selector. -/
theorem Selector.Canonical.eq_of_toCss_eq {s t : Selector} (hs : s.Canonical) (ht : t.Canonical)
    (h : s.toCss = t.toCss) : s = t := by
  rw [← hs.ofChars_toCss, h, ht.ofChars_toCss]

/-! ## What is read is canonical

An invariant of the scan. Each character keeps it, unless it is an `&` outside brackets, and then the
selector has an `&` for good. -/

namespace Scan

/-- An `&` was read outside brackets. -/
def HasParent (s : Scan) : Prop :=
  (∃ e ∈ s.elements, e.combinator = .parent) ∨ s.started = true ∧ s.combinator = .parent

/-- What holds of a scan that has read no `&` outside brackets. -/
structure Good (s : Scan) : Prop where
  /-- The element at hand is no reference. -/
  notStarted : s.started = false
  /-- The element at hand is no reference. -/
  notParent : s.combinator ≠ .parent
  /-- The depth is that of the element at hand. -/
  depth : s.depth = openBrackets s.value
  /-- The last character read is that of the element at hand. -/
  previous : s.value ≠ [] → s.previous = s.value.getLast?
  /-- The element at hand is solid. -/
  value : s.value ≠ [] → Solid s.value
  /-- Completed elements are solid. -/
  solid : ∀ e ∈ s.elements, e.Solid
  /-- Completed elements have no open brackets. -/
  closed : ∀ e ∈ s.elements, openBrackets e.value.toList = 0
  /-- Each completed element joins the next. -/
  joined : s.elements.IsChain Element.Joins
  /-- Between elements, it is settled how the next one is attached. -/
  attached : s.value = [] → s.elements ≠ [] → s.combinator ≠ .compound
  /-- The element at hand was begun rightly. -/
  begun : s.value ≠ [] → s.combinator = .compound → ∀ e ∈ s.elements.getLast?, ∀ c,
    s.value.head? = some c → Begins e.value.toList.getLast? c

variable {s : Scan} {c : Char}

/-- The element at hand as it would be completed. -/
lemma Good.joins (h : s.Good) (hvalue : s.value ≠ []) :
    ∀ e ∈ s.elements.getLast?, e.Joins ⟨s.combinator, String.ofList s.value⟩ := by
  intro e he
  refine ⟨h.closed e (List.mem_of_getLast? he), fun hk c hc => ?_⟩
  rw [String.toList_ofList] at hc
  exact h.begun hvalue hk e he c hc

/-- The elements with the one at hand completed. -/
lemma Good.flush_elements (h : s.Good) :
    (∀ e ∈ s.flush.elements, e.Solid) ∧ s.flush.elements.IsChain Element.Joins := by
  by_cases hvalue : s.value = []
  · rw [flush_of_value_eq_nil hvalue h.notStarted]
    exact ⟨h.solid, h.joined⟩
  · rw [flush_of_value_ne_nil hvalue]
    constructor
    · intro e he
      rcases List.mem_append.mp he with he | he
      · exact h.solid e he
      · rw [List.mem_singleton.mp he]
        exact ⟨by rw [String.toList_ofList]; exact h.value hvalue, h.notParent⟩
    · refine List.isChain_append.mpr ⟨h.joined, List.isChain_singleton _, ?_⟩
      intro e he f hf
      cases hf
      exact h.joins hvalue e he

/-- Outside brackets, completing the element at hand leaves a good scan but for how the next element
is attached. -/
lemma Good.flush_closed (h : s.Good) (hdepth : s.depth = 0) :
    ∀ e ∈ s.flush.elements, openBrackets e.value.toList = 0 := by
  by_cases hvalue : s.value = []
  · rw [flush_of_value_eq_nil hvalue h.notStarted]
    exact h.closed
  · rw [flush_of_value_ne_nil hvalue]
    intro e he
    rcases List.mem_append.mp he with he | he
    · exact h.closed e he
    · rw [List.mem_singleton.mp he, String.toList_ofList, ← h.depth, hdepth]

/-- After an element is completed, none is at hand. -/
lemma Good.flush_value (h : s.Good) : s.flush.value = [] ∧ s.flush.started = false := by
  by_cases hvalue : s.value = []
  · rw [flush_of_value_eq_nil hvalue h.notStarted]
    exact ⟨hvalue, h.notStarted⟩
  · rw [flush_of_value_ne_nil hvalue]
    exact ⟨rfl, rfl⟩

/-- After a separator that is no `&`, outside brackets. -/
lemma Good.separated (h : s.Good) (hdepth : s.depth = 0) {k : Combinator} (hparent : k ≠ .parent)
    (hattached : s.flush.elements ≠ [] → k ≠ .compound) (p : Option Char) :
    Good { s.flush with combinator := k, previous := p } := by
  obtain ⟨hvalue, hstarted⟩ := h.flush_value
  obtain ⟨hsolid, hjoined⟩ := h.flush_elements
  refine ⟨hstarted, hparent, ?_, ?_, ?_, hsolid, h.flush_closed hdepth, hjoined, ?_, ?_⟩
  · show s.flush.depth = openBrackets s.flush.value
    rw [depth_flush, hdepth, hvalue]
    rfl
  · exact fun hne => absurd hvalue hne
  · exact fun hne => absurd hvalue hne
  · exact fun _ => hattached
  · exact fun hne => absurd hvalue hne

/-- The first character of an element. -/
lemma Good.step_first (h : s.Good) (hvalue : s.value = []) (hc : ¬Separates c) : (s.step c).Good := by
  have hdepth : s.depth = 0 := by
    rw [h.depth, hvalue]
    rfl
  rw [step_of_value_eq_nil hvalue hdepth hc]
  refine ⟨h.notStarted, h.notParent, rfl, fun _ => rfl, fun _ => .single hc, h.solid, h.closed,
    h.joined, nofun, ?_⟩
  intro _ hk e he
  -- an element that is attached to nothing is the first one
  by_cases helements : s.elements = []
  · rw [helements] at he
    cases he
  · exact absurd hk (h.attached hvalue helements)

/-- A character inside an element. -/
lemma Good.step_inside (h : s.Good) (hvalue : s.value ≠ [])
    (hc : 0 < s.depth ∨ ¬Separates c ∧ ¬Begins s.previous c) : (s.step c).Good := by
  have hsolid : Solid (s.value ++ [c]) := by
    rw [h.depth, h.previous hvalue] at hc
    exact .snoc (h.value hvalue) hc
  rw [step_of_continues hc]
  refine ⟨h.notStarted, h.notParent, ?_, ?_, fun _ => hsolid, h.solid, h.closed, h.joined, ?_, ?_⟩
  · rw [openBrackets_snoc, h.depth]
  · intro _
    rw [List.getLast?_concat]
  · intro hnil
    exact absurd hnil hsolid.ne_nil
  · intro _ hk e he c' hc'
    rw [List.head?_append_of_ne_nil _ hvalue] at hc'
    exact h.begun hvalue hk e he c' hc'

/-- A character that begins another part of the compound. -/
lemma Good.step_begins (h : s.Good) (hvalue : s.value ≠ []) (hdepth : s.depth = 0)
    (hc : Begins s.previous c) : (s.step c).Good := by
  obtain ⟨hsolid, hjoined⟩ := h.flush_elements
  have hclosed := h.flush_closed hdepth
  rw [flush_of_value_ne_nil hvalue] at hsolid hjoined hclosed
  rw [step_of_begins hvalue hdepth hc]
  refine ⟨rfl, nofun, rfl, fun _ => rfl, fun _ => .single hc.not_separates, hsolid, hclosed, hjoined,
    nofun, ?_⟩
  intro _ _ e he c' hc'
  rw [List.getLast?_concat] at he
  cases he
  cases hc'
  rw [String.toList_ofList, ← h.previous hvalue]
  exact hc

/-- A sign outside brackets. -/
lemma Good.step_sign (h : s.Good) (hdepth : s.depth = 0) {k : Combinator} (hparent : k ≠ .parent)
    (hattached : k ≠ .compound) (hread : s.readPlain c = s.combine k) : (s.step c).Good := by
  rw [step, if_neg (by omega), hread]
  exact h.separated hdepth hparent (fun _ => hattached) _

/-- A separator outside brackets. -/
lemma Good.step_separates (h : s.Good) (hdepth : s.depth = 0) (hc : Separates c) :
    (s.step c).Good ∨ (s.step c).HasParent := by
  rcases hc with hblank | rfl | rfl | rfl | rfl
  · left
    rw [step_of_blank hdepth hblank]
    unfold separate
    dsimp only
    split
    · exact h.separated (k := .descendant) hdepth nofun (fun _ => nofun) _
    · next hattached =>
      refine h.separated hdepth ?_ ?_ _
      · by_cases hvalue : s.value = []
        · rw [flush_of_value_eq_nil hvalue h.notStarted]
          exact h.notParent
        · rw [flush_of_value_ne_nil hvalue]
          exact nofun
      · intro helements hk
        exact hattached (by simp [helements, hk])
  · exact .inl (h.step_sign (k := .child) hdepth nofun nofun rfl)
  · exact .inl (h.step_sign (k := .adjacent) hdepth nofun nofun rfl)
  · exact .inl (h.step_sign (k := .sibling) hdepth nofun nofun rfl)
  · right
    refine .inr ⟨?_, ?_⟩ <;> rw [step, if_neg (by omega)] <;> rfl

/-- **Each character keeps a scan good**, unless it is an `&` outside brackets. -/
lemma Good.step (h : s.Good) (c : Char) : (s.step c).Good ∨ (s.step c).HasParent := by
  by_cases hvalue : s.value = []
  · by_cases hc : Separates c
    · refine h.step_separates ?_ hc
      rw [h.depth, hvalue]
      rfl
    · exact .inl (h.step_first hvalue hc)
  · by_cases hinside : 0 < s.depth ∨ ¬Separates c ∧ ¬Begins s.previous c
    · exact .inl (h.step_inside hvalue hinside)
    · have hdepth : s.depth = 0 := Nat.eq_zero_of_not_pos fun hpos => hinside (.inl hpos)
      by_cases hc : Separates c
      · exact h.step_separates hdepth hc
      · have hbegins : Begins s.previous c := by
          by_contra hbegins
          exact hinside (.inr ⟨hc, hbegins⟩)
        exact .inl (h.step_begins hvalue hdepth hbegins)

/-! An `&` is not forgotten. -/

/-- A reference that was read is among the elements, once the one at hand is completed. -/
lemma HasParent.flush (h : s.HasParent) : ∃ e ∈ s.flush.elements, e.combinator = .parent := by
  unfold Scan.flush
  split
  · rcases h with ⟨e, he, hparent⟩ | ⟨-, hparent⟩
    · exact ⟨e, List.mem_append_left _ he, hparent⟩
    · exact ⟨_, List.mem_append_right _ (List.mem_singleton.mpr rfl), hparent⟩
  · next hcond =>
    rcases h with h | ⟨hstarted, -⟩
    · exact h
    · exact absurd (by simp [hstarted]) hcond

/-- A character completes the element at hand, or leaves it in hand as it is attached. Nothing else can
become of it, and the elements before it stay. -/
lemma step_elements (s : Scan) (c : Char) :
    (s.step c).elements = s.flush.elements ∨
      (s.step c).elements = s.elements ∧ (s.step c).started = s.started ∧
        (s.step c).combinator = s.combinator := by
  have hbegin : (s.begin c).elements = s.flush.elements ∨ (s.begin c).elements = s.elements ∧
      (s.begin c).started = s.started ∧ (s.begin c).combinator = s.combinator := by
    unfold begin
    split
    · exact .inr ⟨rfl, rfl, rfl⟩
    · exact .inl rfl
  unfold step
  split
  · exact .inr ⟨rfl, rfl, rfl⟩
  · unfold readPlain
    split
    · left
      unfold separate
      dsimp only
      split <;> rfl
    · split
      · exact .inl rfl
      · exact .inl rfl
      · exact .inl rfl
      · exact .inl rfl
      · split
        · exact .inr ⟨rfl, rfl, rfl⟩
        · exact hbegin
      · exact hbegin
      · exact hbegin
      · exact hbegin
      · exact .inr ⟨rfl, rfl, rfl⟩
      · exact .inr ⟨rfl, rfl, rfl⟩

/-- A reference that was read stays read. -/
lemma HasParent.step (h : s.HasParent) (c : Char) : (s.step c).HasParent := by
  rcases s.step_elements c with helements | ⟨helements, hstarted, hcombinator⟩
  · left
    rw [helements]
    exact h.flush
  · unfold HasParent
    rw [helements, hstarted, hcombinator]
    exact h

/-- However a text goes on, a scan is good or has read a reference. -/
lemma foldl_step_good (cs : List Char) (h : s.Good ∨ s.HasParent) :
    (cs.foldl Scan.step s).Good ∨ (cs.foldl Scan.step s).HasParent := by
  induction cs generalizing s with
  | nil => exact h
  | cons c cs ih =>
    rcases h with h | h
    · exact ih (h.step c)
    · exact ih (.inr (h.step c))

/-- The scan is good before anything is read. -/
lemma good_empty : Good {} :=
  ⟨rfl, nofun, rfl, nofun, nofun, nofun, nofun, .nil, nofun, nofun⟩

end Scan

/-- An element that is attached in some way is an element of the selector that is made from the list. -/
lemma Selector.mem_ofElements {l : List Element} {e : Element} (he : e ∈ l)
    (hk : e.combinator ≠ .compound) : e ∈ (Selector.ofElements l).elements := by
  unfold Selector.ofElements
  split
  · rcases List.mem_cons.mp he with rfl | he
    · exact absurd rfl hk
    · exact List.mem_cons_of_mem _ he
  · exact he

/-- **What is read from a text is canonical**, if it has no `&`. -/
theorem Selector.canonical_parse {text : String}
    (h : ∀ e ∈ (Selector.parse text).elements, e.combinator ≠ .parent) :
    (Selector.parse text).Canonical := by
  rcases Scan.foldl_step_good text.toList (.inl Scan.good_empty) with hgood | hparent
  · obtain ⟨hsolid, hjoined⟩ := hgood.flush_elements
    exact Selector.canonical_ofElements hsolid hjoined
  · obtain ⟨e, he, hk⟩ := hparent.flush
    exact absurd hk (h e (Selector.mem_ofElements he (by rw [hk]; exact nofun)))

/-- **Reading undoes printing.** If no element of what is read from a text is attached by `&`, then it
is read again from its own text, and so is every tail of it. So if two such selectors, or tails of
them, have one text, they are the same. -/
theorem Selector.parse_toCss {text : String}
    (h : ∀ e ∈ (Selector.parse text).elements, e.combinator ≠ .parent) :
    (∀ s, (Selector.parse text).HasTail s → Selector.parse s.toCss = s) ∧
    ∀ other, (∀ e ∈ (Selector.parse other).elements, e.combinator ≠ .parent) →
      ∀ s t, (Selector.parse text).HasTail s → (Selector.parse other).HasTail t →
        s.toCss = t.toCss → s = t := by
  have hcanonical := Selector.canonical_parse h
  refine ⟨fun s hs => (hcanonical.of_hasTail hs).ofChars_toCss, ?_⟩
  intro other hother s t hs ht htext
  exact (hcanonical.of_hasTail hs).eq_of_toCss_eq ((Selector.canonical_parse hother).of_hasTail ht)
    htext

/-- Two signs in a row, the signs `&` and `>` in brackets, and a bracket that is never closed. -/
def Selector.bracketedSample : String :=
  ">p::before.b[x=\"& > y\"] +~ c:not(.d &"

/-- Other signs and blanks outside the brackets, and the same elements. -/
def Selector.respacedSample : String :=
  "~> p::before.b[x=\"& > y\"]  ~c:not(.d &"

/-- Every `&` of the sample is in brackets, so it is read again from its text, with all its tails; and
it has one text with the other sample, so the two are one selector. -/
theorem Selector.parse_toCss_bracketedSample :
    (∀ e ∈ (Selector.parse Selector.bracketedSample).elements, e.combinator ≠ .parent) ∧
    (∀ s, (Selector.parse Selector.bracketedSample).HasTail s → Selector.parse s.toCss = s) ∧
    (∀ e ∈ (Selector.parse Selector.respacedSample).elements, e.combinator ≠ .parent) ∧
    (Selector.parse Selector.bracketedSample).toCss =
      (Selector.parse Selector.respacedSample).toCss ∧
    Selector.parse Selector.bracketedSample = Selector.parse Selector.respacedSample := by
  have h : ∀ e ∈ (Selector.parse Selector.bracketedSample).elements, e.combinator ≠ .parent := by
    decide +kernel
  have hother : ∀ e ∈ (Selector.parse Selector.respacedSample).elements,
      e.combinator ≠ .parent := by
    decide +kernel
  have htext : (Selector.parse Selector.bracketedSample).toCss =
      (Selector.parse Selector.respacedSample).toCss := by
    decide +kernel
  exact ⟨h, (Selector.parse_toCss h).1, hother, htext,
    (Selector.parse_toCss h).2 _ hother _ _ .self .self htext⟩

end Stylesheet
