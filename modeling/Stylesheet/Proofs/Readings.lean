import Stylesheet.Proofs.Search
import Stylesheet.Proofs.SelectorText

/-!
# Searching with and without a memory

A search goes by the names of a selector's elements, the memory goes by its text. `Block.search` is
the search that knows no memory: it gives what the selector names.

* `Memory.Holds F`: all readings are of selectors in `F`, each under its own text.
* `Selector.ToldApart F`: selectors in `F` that have one text have the same names.
* **A memory that holds selectors told apart decides nothing** (`Block.find_settled`): a search gives
  what the selector names, and the memory still holds such selectors only.
* `Selector.Plain`: a selector that is read from a text and has no `&`. Plain selectors are told apart
  (`Selector.toldApart_plain`).
-/

namespace Stylesheet

variable {α β γ : Type}

/-! ## What a memory holds

Each block has readings of its own, one for each text. A reading is fixed once and is never replaced. -/

/-- Only selectors in `F` have been looked up. -/
def Memory.Holds (F : Selector → Prop) (m : Memory) : Prop :=
  ∀ stamp text s, m.reading? stamp text = some s → F s ∧ s.toCss = text

namespace Memory

variable {F : Selector → Prop} {m : Memory}

/-- Nothing was read in an empty memory. -/
@[simp] lemma reading?_empty (stamp : Nat) (text : String) : empty.reading? stamp text = none := by
  simp [empty, reading?]

/-- Nothing was read in a memory that knows blocks only. -/
@[simp] lemma reading?_replicate (count stamp : Nat) (text : String) :
    (⟨Array.replicate count []⟩ : Memory).reading? stamp text = none := by
  simp only [reading?, Array.getElem?_replicate]
  split <;> rfl

/-- A new block has no readings. -/
@[simp] lemma reading?_fresh (m : Memory) (stamp : Nat) (text : String) :
    m.fresh.2.reading? stamp text = m.reading? stamp text := by
  simp only [fresh, reading?, Array.getElem?_push]
  split
  · next h => simp [h]
  · rfl

/-- In a block that the memory knows, a text is read as was recorded. -/
lemma reading?_record_self {stamp : Nat} (h : stamp < m.readings.size) (text : String)
    (s : Selector) : (m.record stamp text s).reading? stamp text = some s := by
  rw [record, reading?, Array.getElem?_modify, if_pos rfl, Array.getElem?_eq_getElem h]
  simp

/-- Other texts, and texts in other blocks, are read as before. -/
lemma reading?_record_of_ne {stamp stamp' : Nat} {text text' : String}
    (h : ¬(stamp' = stamp ∧ text' = text)) (s : Selector) :
    (m.record stamp text s).reading? stamp' text' = m.reading? stamp' text' := by
  by_cases hstamp : stamp' = stamp
  · subst hstamp
    have htext : (text' == text) = false := beq_eq_false_iff_ne.mpr fun htext => h ⟨rfl, htext⟩
    cases hentries : m.readings[stamp']? <;>
      simp [record, reading?, Array.getElem?_modify, hentries, List.lookup_cons, htext]
  · simp [record, reading?, Array.getElem?_modify, Ne.symm hstamp]

/-- A block that the memory does not know gets no readings. -/
lemma record_of_size_le {stamp : Nat} (h : m.readings.size ≤ stamp) (text : String) (s : Selector) :
    m.record stamp text s = m := by
  have hnone : m.readings[stamp]? = none := Array.getElem?_eq_none h
  have hsame : m.readings.modify stamp (fun entries => (text, s) :: entries) = m.readings := by
    refine Array.ext_getElem? fun i => ?_
    rw [Array.getElem?_modify]
    split
    · next hi =>
      subst hi
      simp [hnone]
    · rfl
  rw [record, hsame]

/-- An empty memory holds selectors of any kind. -/
lemma holds_empty : Memory.empty.Holds F := by
  intro stamp text s h
  simp at h

/-- A new block brings no readings. -/
lemma Holds.fresh (h : m.Holds F) : m.fresh.2.Holds F := by
  intro stamp text s hs
  rw [reading?_fresh] at hs
  exact h stamp text s hs

/-- A reading that is fixed for a selector in `F` is one of a selector in `F`. -/
lemma Holds.record (h : m.Holds F) (stamp : Nat) {s : Selector} (hs : F s) :
    (m.record stamp s.toCss s).Holds F := by
  intro stamp' text s' hs'
  by_cases hknown : stamp < m.readings.size
  · by_cases hsame : stamp' = stamp ∧ text = s.toCss
    · obtain ⟨rfl, rfl⟩ := hsame
      rw [reading?_record_self hknown] at hs'
      cases hs'
      exact ⟨hs, rfl⟩
    · rw [reading?_record_of_ne hsame] at hs'
      exact h stamp' text s' hs'
  · rw [record_of_size_le (Nat.le_of_not_lt hknown)] at hs'
    exact h stamp' text s' hs'

end Memory

/-- A text that was read before is read as it was then. -/
lemma readAt_of_some {m : Memory} {stamp : Nat} {s first : Selector}
    (h : m.reading? stamp s.toCss = some first) : (readAt stamp s).run m = (first, m) := by
  simp only [readAt, StateT.run_bind, StateT.run_get, pure_bind, h]
  rfl

/-- A text that was not read before is read as the selector at hand, and from then on so. -/
lemma readAt_of_none {m : Memory} {stamp : Nat} {s : Selector}
    (h : m.reading? stamp s.toCss = none) :
    (readAt stamp s).run m = (s, m.record stamp s.toCss s) := by
  simp only [readAt, StateT.run_bind, StateT.run_get, pure_bind, h]
  rfl

/-- What is read under the text of a selector is in `F` and has that text, if all readings are. -/
lemma readAt_holds {F : Selector → Prop} {m : Memory} (hm : m.Holds F) (stamp : Nat) {s : Selector}
    (hs : F s) :
    (F ((readAt stamp s).run m).1 ∧ ((readAt stamp s).run m).1.toCss = s.toCss) ∧
      ((readAt stamp s).run m).2.Holds F := by
  cases hreading : m.reading? stamp s.toCss with
  | some first =>
    rw [readAt_of_some hreading]
    exact ⟨hm stamp s.toCss first hreading, hm⟩
  | none =>
    rw [readAt_of_none hreading]
    exact ⟨⟨hs, rfl⟩, hm.record stamp hs⟩

/-! ## Searching without a memory

A search looks at the texts of a selector's elements and at nothing else of it, so it can be said for a
list of names. -/

/-- The texts of a selector's elements, which are all that a search looks at. -/
def Selector.names (s : Selector) : List String :=
  s.elements.map Element.value

/-- Whether one of the block's selectors begins with the name. -/
def Block.goesBy (b : Block) (name : String) : Bool :=
  b.selectors.any fun own => own.names.head? == some name

/-- The blocks that names lead to, the first of which has to be a name of the block itself. -/
def Block.searchHere : (names : List String) → Block → List Match
  | [], _ => []
  | [name], b => if b.goesBy name then [⟨b, []⟩] else []
  | name :: rest, b =>
    if b.goesBy name then (b.children.flatMap (Block.searchHere rest)).map (Match.within b) else []

/-- The blocks inside a block that names lead to, each name one level further inside. -/
def Block.search (names : List String) (b : Block) : List Match :=
  b.children.flatMap (Block.searchHere names)

/-- The names of a selector are the texts of its elements, however the first one is attached. -/
@[simp] lemma Selector.names_ofElements (elements : List Element) :
    (Selector.ofElements elements).names = elements.map Element.value := by
  unfold Selector.ofElements
  split <;> simp [Selector.names]

/-- The names of a selector are its first name and those of what is left to look up inside. -/
lemma Selector.exists_names_eq {s tail : Selector} (h : s.tail? = some tail) :
    ∃ name, s.names = name :: tail.names := by
  obtain ⟨elements⟩ := s
  match elements with
  | e :: second :: rest =>
    cases h
    exact ⟨e.value, by rw [Selector.names_ofElements]; rfl⟩

/-- Selectors with the same names have the same names left to look up inside. -/
lemma Selector.rel_tail?_of_names_eq {s t : Selector} (h : t.names = s.names) :
    Option.Rel (fun s t => t.names = s.names) s.tail? t.tail? := by
  obtain ⟨elements⟩ := s
  obtain ⟨elements'⟩ := t
  rcases elements with - | ⟨e, - | ⟨second, rest⟩⟩ <;>
    rcases elements' with - | ⟨e', - | ⟨second', rest'⟩⟩ <;> simp [Selector.names] at h
  · exact .none
  · exact .none
  · refine .some ?_
    rw [Selector.names_ofElements, Selector.names_ofElements, List.map_cons, List.map_cons, h.2.1, h.2.2]

/-- Which selectors agree is decided by the first names. -/
lemma Selector.agrees_eq (own s : Selector) :
    own.agrees s = s.names.head?.any fun name => own.names.head? == some name := by
  obtain ⟨elements⟩ := s
  obtain ⟨owns⟩ := own
  cases elements <;> cases owns <;> simp [Selector.agrees, Selector.names]

/-- Whether a block answers to a selector is decided by the first name. -/
lemma Block.answersTo_eq (b : Block) (s : Selector) : b.answersTo s = s.names.head?.any b.goesBy := by
  simp only [Block.answersTo, Selector.agrees_eq]
  cases s.names.head? with
  | none => simp
  | some name => rfl

/-! ## Searches in a memory that decides nothing

A reading may replace the selector that is looked up by another one of the same text. If selectors are
told apart, that one has the same names, and the search goes on as it would have. -/

/-- Selectors in `F` that have one text have the same names. -/
def Selector.ToldApart (F : Selector → Prop) : Prop :=
  ∀ s t, F s → F t → s.toCss = t.toCss → s.names = t.names

/-- From every memory that holds selectors in `F`, `x` gives `a`, and the memory still holds such
selectors only. -/
def Settled (F : Selector → Prop) (x : StateM Memory α) (a : α) : Prop :=
  ∀ m, m.Holds F → (x.run m).1 = a ∧ (x.run m).2.Holds F

namespace Settled

variable {F : Selector → Prop} {x : StateM Memory α} {k : α → StateM Memory β} {a : α} {b : β}

/-- A value at hand. -/
lemma pure (a : α) : Settled F (pure a) a :=
  fun _ hm => ⟨rfl, hm⟩

/-- One step after another. -/
lemma bind (hx : Settled F x a) (hk : Settled F (k a) b) : Settled F (x >>= k) b := by
  intro m hm
  obtain ⟨rfl, hm⟩ := hx m hm
  exact hk _ hm

/-- A function of a settled value. -/
lemma map (hx : Settled F x a) (f : α → β) : Settled F (f <$> x) (f a) := by
  intro m hm
  obtain ⟨rfl, hm⟩ := hx m hm
  exact ⟨rfl, hm⟩

/-- Settled values from left to right. -/
lemma mapM {f : α → StateM Memory β} {g : α → β} {l : List α}
    (h : ∀ a ∈ l, Settled F (f a) (g a)) : Settled F (l.mapM f) (l.map g) := by
  induction l with
  | nil => exact pure []
  | cons a l ih =>
    rw [List.mapM_cons, List.map_cons]
    have hrest := ih fun b hb => h b (List.mem_cons_of_mem a hb)
    exact (h a List.mem_cons_self).bind (hrest.bind (pure _))

end Settled

section settled

variable {F : Selector → Prop}

/-- Matches in one child are what the names lead to. -/
lemma Block.findHere_settled {s : Selector} {child : Block}
    (hfind : ∀ tail, s.tail? = some tail → Settled F (child.find tail) (child.search tail.names)) :
    Settled F (child.findHere s) (child.searchHere s.names) := by
  unfold Block.findHere
  rw [Block.answersTo_eq]
  obtain ⟨elements⟩ := s
  match elements with
  | [] => exact .pure []
  | [e] =>
    simp only [Selector.names, List.map_cons, List.map_nil, List.head?_cons, Option.any_some,
      Block.searchHere, Selector.tail?]
    split <;> exact .pure _
  | e :: second :: rest =>
    have htail := hfind (.ofElements (second :: rest)) rfl
    simp only [Selector.names, List.map_cons, List.head?_cons, Option.any_some,
      Block.searchHere, Selector.tail?]
    split
    · rw [Selector.names_ofElements] at htail
      exact htail.map _
    · exact .pure _

/-- Matches among rules are what the names lead to. -/
lemma Block.findAmong_settled {s : Selector} (rules : List Node)
    (hfind : ∀ (child : Block) tail, s.tail? = some tail →
      Settled F (child.find tail) (child.search tail.names)) :
    Settled F (Block.findAmong rules s)
      ((rules.filterMap Node.block?).flatMap (Block.searchHere s.names)) := by
  induction rules with
  | nil => exact .pure _
  | cons r rules ih =>
    cases r with
    | block child =>
      rw [Block.findAmong_block]
      exact (Block.findHere_settled (hfind child)).bind (ih.bind (.pure _))
    | _ =>
      rw [Block.findAmong_of_not_block rfl]
      exact ih

/-- **A memory that holds selectors told apart decides nothing.** -/
theorem Block.find_settled (hapart : Selector.ToldApart F)
    (htail : ∀ s t, F s → s.tail? = some t → F t) {s : Selector} (hs : F s) (b : Block) :
    Settled F (b.find s) (b.search s.names) := by
  -- along the names, since whatever the text is read as has the names of the selector
  induction hlength : s.names.length using Nat.strongRecOn generalizing s b with
  | ind length ih =>
    intro m hm
    obtain ⟨stamp, selectors, rules, kind⟩ := b
    obtain ⟨⟨hfirst, htext⟩, hread⟩ := readAt_holds hm stamp hs
    rw [Block.find, StateT.run_bind]
    generalize (readAt stamp s).run m = read at *
    obtain ⟨first, m'⟩ := read
    have hnames : first.names = s.names := hapart first s hfirst hs htext
    have hrules : Settled F (Block.findAmong rules first)
        ((rules.filterMap Node.block?).flatMap (Block.searchHere first.names)) := by
      refine Block.findAmong_settled rules fun child tail hrest => ?_
      obtain ⟨name, hname⟩ := Selector.exists_names_eq hrest
      have hshorter : tail.names.length < length := by
        rw [← hlength, ← hnames, hname]
        exact Nat.lt_succ_self _
      exact ih _ hshorter (htail first tail hfirst hrest) child rfl
    rw [hnames] at hrules
    exact hrules m' hread

end settled

/-! ## Plain selectors

A selector without `&` that was read from a text can be read back from its own text, so two of them with
one text are equal. -/

/-- The selector is read from a text and has no `&`. -/
def Selector.Plain (s : Selector) : Prop :=
  (∃ text, Selector.parse text = s) ∧ ∀ e ∈ s.elements, e.combinator ≠ .parent

/-- Plain selectors are the canonical ones. -/
lemma Selector.plain_iff_canonical (s : Selector) : s.Plain ↔ s.Canonical := by
  constructor
  · rintro ⟨⟨text, rfl⟩, hparent⟩
    exact Selector.canonical_parse hparent
  · intro h
    exact ⟨⟨s.toCss, h.ofChars_toCss⟩, fun e he => (h.solid e he).notParent⟩

/-- What is left of a plain selector to look up inside is plain. -/
lemma Selector.Plain.tail {s t : Selector} (h : s.Plain) (ht : s.tail? = some t) : t.Plain := by
  rw [Selector.plain_iff_canonical] at h ⊢
  exact h.tail ht

/-- Plain selectors are told apart by their texts. -/
lemma Selector.toldApart_plain : Selector.ToldApart Selector.Plain := by
  intro s t hs ht htext
  rw [Selector.plain_iff_canonical] at hs ht
  rw [hs.eq_of_toCss_eq ht htext]

/-- Only plain selectors have been looked up. -/
def Memory.Plain (m : Memory) : Prop :=
  ∀ stamp text s, m.reading? stamp text = some s → s.Plain ∧ s.toCss = text

/-- An empty memory holds no readings. -/
lemma Memory.plain_empty : Memory.empty.Plain :=
  Memory.holds_empty

end Stylesheet
