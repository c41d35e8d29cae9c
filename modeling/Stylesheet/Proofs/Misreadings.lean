import Stylesheet.Proofs.Readings

/-!
# Texts with two readings

What happens where the texts of selectors do not tell them apart.

* **The first answer is the answer for good** (`Block.find_lasting`): once a text has been looked up
  in a block, whatever has that text gets the same answer there, and the memory stays as it is.
* **Names that differ under one text are misread** (`Selector.toldApart_of_transparent`): a chain of
  blocks, each named by the next name, is found by one of the two selectors and not by the other one,
  but the second that is looked up gets the answer of the first.

So the memory can go unnoticed only where the selectors that are looked up are told apart.
-/

namespace Stylesheet

variable {α β : Type}

/-! ## Readings stay

A search with one selector is repeated with another one of the same text, at any later time. Each reading
that the first search has met or fixed is met by the second one, so it goes the same way. -/

/-- The second memory knows all that the first one knows. -/
structure Memory.Extends (m m' : Memory) : Prop where
  /-- It knows as many blocks. -/
  size : m.readings.size ≤ m'.readings.size
  /-- It reads texts in the same way. -/
  reading : ∀ {stamp text s}, m.reading? stamp text = some s → m'.reading? stamp text = some s

namespace Memory.Extends

variable {m m' m'' : Memory}

/-- A memory knows what it knows. -/
lemma refl (m : Memory) : m.Extends m :=
  ⟨Nat.le_refl _, id⟩

/-- What is known stays known. -/
lemma trans (h : m.Extends m') (h' : m'.Extends m'') : m.Extends m'' :=
  ⟨Nat.le_trans h.size h'.size, fun hs => h'.reading (h.reading hs)⟩

/-- A new reading takes the place of none. -/
lemma record {stamp : Nat} {text : String} (h : m.reading? stamp text = none) (s : Selector) :
    m.Extends (m.record stamp text s) := by
  refine ⟨by simp [Memory.record], ?_⟩
  intro stamp' text' s' hs'
  have hother : ¬(stamp' = stamp ∧ text' = text) := by
    rintro ⟨rfl, rfl⟩
    rw [h] at hs'
    cases hs'
  rw [Memory.reading?_record_of_ne hother]
  exact hs'

end Memory.Extends

/-- From a memory that knows so many blocks, `x` extends the memory, and whenever `y` is run later it
gives what `x` gave and changes nothing. -/
def Lasting (known : Nat) (x y : StateM Memory α) : Prop :=
  ∀ m, known ≤ m.readings.size → m.Extends (x.run m).2 ∧
    ∀ m', (x.run m).2.Extends m' → y.run m' = ((x.run m).1, m')

namespace Lasting

variable {known : Nat} {x y : StateM Memory α} {k l : α → StateM Memory β}

/-- A value at hand needs no memory. -/
lemma pure (a : α) : Lasting known (pure a) (pure a) :=
  fun m _ => ⟨.refl m, fun _ _ => rfl⟩

/-- If each of two steps comes to the same later, so do both together. -/
lemma bind (hx : Lasting known x y) (hk : ∀ a, Lasting known (k a) (l a)) :
    Lasting known (x >>= k) (y >>= l) := by
  intro m hm
  obtain ⟨hextends, hlater⟩ := hx m hm
  obtain ⟨hextends', hlater'⟩ := hk (x.run m).1 (x.run m).2 (Nat.le_trans hm hextends.size)
  refine ⟨hextends.trans hextends', fun m' hm' => ?_⟩
  rw [StateT.run_bind, hlater m' (hextends'.trans hm')]
  exact hlater' m' hm'

/-- What is made of the result is made of the same result later. -/
lemma map (hx : Lasting known x y) (f : α → β) : Lasting known (f <$> x) (f <$> y) := by
  intro m hm
  obtain ⟨hextends, hlater⟩ := hx m hm
  refine ⟨hextends, fun m' hm' => ?_⟩
  rw [StateT.run_map, hlater m' hm']
  rfl

end Lasting

section lasting

variable {known : Nat}

/-- A text keeps its reading in a block that the memory knows. -/
lemma readAt_lasting {stamp : Nat} (hstamp : stamp < known) {s t : Selector}
    (htext : t.toCss = s.toCss) : Lasting known (readAt stamp s) (readAt stamp t) := by
  intro m hm
  cases hreading : m.reading? stamp s.toCss with
  | some first =>
    rw [readAt_of_some hreading]
    refine ⟨.refl m, fun m' hm' => readAt_of_some ?_⟩
    rw [htext]
    exact hm'.reading hreading
  | none =>
    rw [readAt_of_none hreading]
    refine ⟨.record hreading s, fun m' hm' => readAt_of_some ?_⟩
    rw [htext]
    exact hm'.reading (Memory.reading?_record_self (Nat.lt_of_lt_of_le hstamp hm) _ _)

/-- A child is searched to the same end later, if what is inside it is. -/
lemma Block.findHere_lasting {child : Block}
    (hfind : ∀ s, Lasting known (child.find s) (child.find s)) (s : Selector) :
    Lasting known (child.findHere s) (child.findHere s) := by
  unfold Block.findHere
  split
  · split
    · exact (hfind _).map _
    · exact .pure _
  · exact .pure _

/-- So are all blocks among some rules. -/
lemma Block.findAmong_lasting {rules : List Node}
    (hfind : ∀ child, Node.block child ∈ rules → ∀ s, Lasting known (child.find s) (child.find s))
    (s : Selector) : Lasting known (Block.findAmong rules s) (Block.findAmong rules s) := by
  induction rules with
  | nil => exact .pure _
  | cons r rest ih =>
    have hrest := ih fun child hchild => hfind child (List.mem_cons_of_mem r hchild)
    cases r with
    | block child =>
      rw [Block.findAmong_block]
      refine (Block.findHere_lasting (hfind child List.mem_cons_self) s).bind fun here => ?_
      exact hrest.bind fun others => .pure _
    | _ =>
      rw [Block.findAmong_of_not_block rfl]
      exact hrest

/-- **The first answer is the answer for good.** -/
theorem Block.find_lasting {b : Block} (hb : b.StampsIn (· < known)) {s t : Selector}
    (htext : t.toCss = s.toCss) : Lasting known (b.find s) (b.find t) := by
  have key : (∀ n : Node, ∀ b, n = .block b → b.StampsIn (· < known) → ∀ {s t : Selector},
      t.toCss = s.toCss → Lasting known (b.find s) (b.find t)) ∧
      ∀ b : Block, b.StampsIn (· < known) → ∀ {s t : Selector}, t.toCss = s.toCss →
        Lasting known (b.find s) (b.find t) := by
    refine Node.joint_induction (fun n _ hblock b hb => hblock b hb) ?_
    intro b hrules _ _ hb s t htext
    obtain ⟨stamp, selectors, rules, kind⟩ := b
    rw [Block.find, Block.find]
    refine (readAt_lasting hb.stamp htext).bind fun first => ?_
    refine Block.findAmong_lasting (fun child hchild s => ?_) first
    exact hrules _ hchild child rfl (hb.of_mem_rules hchild).of_block rfl
  exact key.2 b hb htext

end lasting

/-! ## Sequences of searches

What it means that a memory goes unnoticed, said of searches in trees in which nothing has been looked up
before. -/

/-- Looks up selectors in blocks, one after the other. -/
def lookUp (lookups : List (Block × Selector)) : StateM Memory (List (List Match)) :=
  lookups.mapM fun l => l.1.find l.2

/-- The first block is the second one or inside it. -/
inductive Block.Inside : Block → Block → Prop
  | self (b : Block) : Block.Inside b b
  | child {b c d : Block} (hc : c ∈ b.children) (hd : Block.Inside d c) : Block.Inside d b

/-- A tree as it is before anything was looked up in it: each block has a stamp of its own, which the
memory knows and holds no readings for. -/
structure Block.Unread (b : Block) (m : Memory) : Prop where
  /-- Blocks with one stamp are one block. -/
  distinct : ∀ {c d : Block}, c.Inside b → d.Inside b → c.stamp = d.stamp → c = d
  /-- All stamps are known. -/
  known : b.StampsIn (· < m.readings.size)
  /-- There are no readings. -/
  blank : ∀ stamp text, m.reading? stamp text = none

/-- The memory goes unnoticed where selectors in `F` are looked up: whatever was looked up before, a
search finds what the selector names. -/
def Selector.Transparent (F : Selector → Prop) : Prop :=
  ∀ (b : Block) (m : Memory) (lookups : List (Block × Selector)), b.Unread m →
    (∀ l ∈ lookups, l.1.Inside b ∧ F l.2) →
    ((lookUp lookups).run m).1 = lookups.map fun l => l.1.search l.2.names

/-- A memory without readings holds selectors of any kind. -/
lemma Memory.holds_of_blank {F : Selector → Prop} {m : Memory}
    (h : ∀ stamp text, m.reading? stamp text = none) : m.Holds F := by
  intro stamp text s hs
  rw [h] at hs
  cases hs

/-- Selectors that are told apart are found whatever was looked up before. -/
theorem Selector.transparent_of_toldApart {F : Selector → Prop} (hapart : Selector.ToldApart F)
    (htail : ∀ s t, F s → s.tail? = some t → F t) : Selector.Transparent F := by
  intro b m lookups hunread hlookups
  have hsettled : Settled F (lookUp lookups) (lookups.map fun l => l.1.search l.2.names) :=
    .mapM fun l hl => Block.find_settled hapart htail (hlookups l hl).2 l.1
  exact (hsettled m (Memory.holds_of_blank hunread.blank)).1

/-! ## A chain that shows a misreading

Two selectors of one text with different names are given. In a chain of blocks that is named by the names
of the first, the second should find nothing, or something else; but it finds what the first one has
found. -/

/-- A block inside a block and so on, each named by the next of the names. -/
def Block.chain (stamp : Nat) (selectors : List Selector) : (names : List String) → Block
  | [] => ⟨stamp, selectors, [], .plain⟩
  | name :: rest =>
    ⟨stamp, selectors, [.block (Block.chain (stamp + 1) [⟨[⟨.descendant, name⟩]⟩] rest)], .plain⟩

section chain

variable {stamp : Nat} {selectors : List Selector} {names : List String}

/-- A chain has the stamp that it begins with. -/
@[simp] lemma Block.stamp_chain : (Block.chain stamp selectors names).stamp = stamp := by
  cases names <;> rfl

/-- Behind the last name there is nothing. -/
lemma Block.children_chain_nil : (Block.chain stamp selectors []).children = [] := rfl

/-- The only child of a chain is the chain of the other names, under the next stamp. -/
lemma Block.children_chain_cons (name : String) :
    (Block.chain stamp selectors (name :: names)).children =
      [Block.chain (stamp + 1) [⟨[⟨.descendant, name⟩]⟩] names] := rfl

/-- A chain goes by the name that it was given. -/
lemma Block.goesBy_chain {name own : String} :
    (Block.chain stamp [⟨[⟨.descendant, own⟩]⟩] names).goesBy name = (own == name) := by
  cases names <;> simp [Block.goesBy, Block.chain, Selector.names]

/-- A chain has as many stamps behind its own as there are names. -/
lemma Block.chain_stampsIn {known : Nat} (h : stamp + names.length < known) :
    (Block.chain stamp selectors names).StampsIn (· < known) := by
  induction names generalizing stamp selectors with
  | nil => exact .without_params rfl h (by simp [chain])
  | cons name rest ih =>
    rw [List.length_cons] at h
    refine .without_params rfl ?_ ?_
    · rw [Block.stamp_chain]
      omega
    · intro r hr
      rw [List.mem_singleton.mp hr]
      exact .block (ih (by omega))

/-- A block inside a chain is the whole chain or inside the chain of the other names. -/
lemma Block.Inside.of_chain {c : Block} (h : c.Inside (.chain stamp selectors names)) :
    c = .chain stamp selectors names ∨ ∃ name rest, names = name :: rest ∧
      c.Inside (.chain (stamp + 1) [⟨[⟨.descendant, name⟩]⟩] rest) := by
  cases h with
  | self => exact .inl rfl
  | child hd hc =>
    cases names with
    | nil => simp [Block.children_chain_nil] at hd
    | cons name rest =>
      rw [Block.children_chain_cons, List.mem_singleton] at hd
      subst hd
      exact .inr ⟨name, rest, rfl, hc⟩

/-- Stamps grow along a chain. -/
lemma Block.Inside.stamp_le {c : Block} (h : c.Inside (.chain stamp selectors names)) :
    stamp ≤ c.stamp := by
  induction names generalizing stamp selectors with
  | nil =>
    obtain rfl | ⟨_, _, hnames, -⟩ := h.of_chain
    · simp
    · cases hnames
  | cons name rest ih =>
    obtain rfl | ⟨_, _, hnames, hc⟩ := h.of_chain
    · simp
    · cases hnames
      exact Nat.le_of_succ_le (ih hc)

/-- No two blocks of a chain share a stamp. -/
lemma Block.chain_distinct {c d : Block} (hc : c.Inside (.chain stamp selectors names))
    (hd : d.Inside (.chain stamp selectors names)) (h : c.stamp = d.stamp) : c = d := by
  induction names generalizing stamp selectors with
  | nil =>
    obtain rfl | ⟨_, _, hnames, -⟩ := hc.of_chain
    · obtain rfl | ⟨_, _, hnames, -⟩ := hd.of_chain
      · rfl
      · cases hnames
    · cases hnames
  | cons name rest ih =>
    rcases hc.of_chain with rfl | ⟨_, _, hnames, hc⟩ <;>
      rcases hd.of_chain with rfl | ⟨_, _, hnames', hd⟩
    · rfl
    · cases hnames'
      have := hd.stamp_le
      rw [Block.stamp_chain] at h
      omega
    · cases hnames
      have := hc.stamp_le
      rw [Block.stamp_chain] at h
      omega
    · cases hnames
      cases hnames'
      exact ih hc hd

/-- A chain is found by its names. -/
lemma Block.search_chain_ne_nil (h : names ≠ []) :
    (Block.chain stamp selectors names).search names ≠ [] := by
  induction names generalizing stamp selectors with
  | nil => exact absurd rfl h
  | cons name rest ih =>
    rw [Block.search, Block.children_chain_cons]
    cases rest with
    | nil => simp [Block.searchHere, Block.goesBy_chain]
    | cons second rest =>
      have hrest : (Block.chain (stamp + 1) [⟨[⟨.descendant, name⟩]⟩] (second :: rest)).search
          (second :: rest) ≠ [] := ih (by simp)
      simpa [Block.searchHere, Block.goesBy_chain, Block.search] using hrest

/-- Only names along the chain find something in it. -/
lemma Block.isPrefix_of_mem_search {found : Match} {others : List String}
    (h : found ∈ (Block.chain stamp selectors names).search others) : others <+: names := by
  induction others generalizing stamp selectors names found with
  | nil => exact List.nil_prefix
  | cons other others ih =>
    cases names with
    | nil => simp [Block.search, Block.children_chain_nil] at h
    | cons name rest =>
      rw [Block.search, Block.children_chain_cons, List.flatMap_singleton] at h
      cases others with
      | nil =>
        simp only [Block.searchHere, Block.goesBy_chain] at h
        split at h
        · next hname => simpa using (beq_iff_eq.mp hname).symm
        · cases h
      | cons second others =>
        simp only [Block.searchHere, Block.goesBy_chain] at h
        split at h
        · next hname =>
          obtain ⟨inner, hinner, -⟩ := List.mem_map.mp h
          rw [beq_iff_eq.mp hname]
          exact (List.prefix_cons_inj other).mpr (ih hinner)
        · cases h

end chain

/-- A search goes through one block for each name but the last. -/
lemma Block.length_enclosing_of_mem_search {names : List String} {b : Block} {found : Match}
    (h : found ∈ b.search names) : found.enclosing.length + 1 = names.length := by
  induction names generalizing b found with
  | nil => simp [Block.search, Block.searchHere] at h
  | cons name rest ih =>
    obtain ⟨child, -, hfound⟩ := List.mem_flatMap.mp h
    cases rest with
    | nil =>
      simp only [Block.searchHere] at hfound
      split at hfound
      · rw [List.mem_singleton.mp hfound]
        rfl
      · cases hfound
    | cons second rest =>
      simp only [Block.searchHere] at hfound
      split at hfound
      · obtain ⟨inner, hinner, rfl⟩ := List.mem_map.mp hfound
        exact congrArg (· + 1) (ih hinner)
      · cases hfound

/-- A chain is found by no other names than its own, as far as the same blocks are found. -/
lemma Block.names_eq_of_search_chain_eq {stamp : Nat} {selectors : List Selector}
    {names others : List String} (hnames : names ≠ [])
    (h : (Block.chain stamp selectors names).search others =
      (Block.chain stamp selectors names).search names) : others = names := by
  obtain ⟨found, hfound⟩ := List.exists_mem_of_ne_nil _ (Block.search_chain_ne_nil hnames)
  have hlength := Block.length_enclosing_of_mem_search hfound
  rw [← h] at hfound
  have hothers := Block.length_enclosing_of_mem_search hfound
  exact (Block.isPrefix_of_mem_search hfound).eq_of_length (by omega)

/-- **Names that differ under one text are misread.** -/
theorem Selector.toldApart_of_transparent {F : Selector → Prop} (h : Selector.Transparent F) :
    Selector.ToldApart F := by
  -- one of the selectors has names; the chain is built of these
  have key : ∀ {s t}, F s → F t → s.toCss = t.toCss → t.names ≠ [] → s.names = t.names := by
    intro s t hs ht htext hnames
    let b := Block.chain 0 [] t.names
    let m : Memory := ⟨Array.replicate (t.names.length + 1) []⟩
    have hknown : b.StampsIn (· < m.readings.size) := Block.chain_stampsIn (by simp [m])
    have hblank : ∀ stamp text, m.reading? stamp text = none := by simp [m]
    have hanswers := h b m [(b, s), (b, t)] ⟨Block.chain_distinct, hknown, hblank⟩
      (by simp [hs, ht, Block.Inside.self])
    have hlasting := Block.find_lasting hknown htext.symm m (Nat.le_refl _)
    have hsecond : ((lookUp [(b, s), (b, t)]).run m).1 =
        [((b.find s).run m).1, ((b.find t).run ((b.find s).run m).2).1] := rfl
    rw [hsecond, hlasting.2 _ (.refl _)] at hanswers
    simp only [List.map_cons, List.map_nil, List.cons.injEq, and_true] at hanswers
    exact Block.names_eq_of_search_chain_eq hnames (hanswers.1.symm.trans hanswers.2)
  intro s t hs ht htext
  by_cases ht' : t.names = []
  · by_cases hs' : s.names = []
    · rw [hs', ht']
    · exact (key ht hs htext.symm hs').symm
  · exact key hs ht htext ht'

end Stylesheet
