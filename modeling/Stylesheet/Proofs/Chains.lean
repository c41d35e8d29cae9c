import Stylesheet.Proofs.Readings

/-!
# What a selector names

A selector with the names `v₁, …, vₙ` names chains of blocks. A chain begins with a block among the rules
of the frame that is searched, each further block stands among the rules of the one before it, and the
block at place `i` has a selector that begins with `vᵢ`. Where a chain runs is told by its *address*, the
list of the indices by which the blocks are picked.

* `Block.Leads`: names lead along an address to a chain.
* `Block.Enumerates`: a list of matches holds exactly the chains to which names lead, each once and in the
  order of their addresses, which is document order.
* **A search names chains** (`resolution_enumerates`): where no block has readings and no block stands in
  two places, a frame is searched for the chains that the selector names; and a scope is searched for
  those of the innermost frame that has any of use.
* **So does every search for selectors that are told apart** (`resolve_decides_of_toldApart`), in any scope
  and after any other searches for such selectors.
-/

namespace Stylesheet

variable {α β : Type}

/-! ## Chains and their addresses

The specification, in which neither memory nor search occurs. Chains for the same names have addresses of
one length, ordered by the first index in which they differ: this is document order. -/

/-- The blocks from the outermost one that the search went through to the one found. -/
def Match.chain (found : Match) : List Block :=
  found.enclosing ++ [found.block]

/-- Names lead inward along an address: each index picks a block among the rules of the last one, and
that block goes by the name. -/
inductive Block.Leads : Block → List String → List Nat → List Block → Prop
  | here {b : Block} : Block.Leads b [] [] []
  | inward {b c : Block} {name : String} {names : List String} {index : Nat} {address : List Nat}
      {chain : List Block} (hchild : b.children[index]? = some c) (hname : c.goesBy name = true)
      (hrest : Block.Leads c names address chain) :
      Block.Leads b (name :: names) (index :: address) (c :: chain)

/-- The matches are those to which names lead and that a call can use, each once, in the order of their
addresses. -/
def Block.Enumerates (frame : Block) (names : List String) (withArgs : Bool) (found : List Match) :
    Prop :=
  ∃ located : List (List Nat × Match), located.map Prod.snd = found ∧
    (located.map Prod.fst).Pairwise (· < ·) ∧
    ∀ address f, (address, f) ∈ located ↔
      frame.Leads names address f.chain ∧ f.accepts withArgs = true

/-- Names lead to something that a call can use. -/
def Block.Offers (frame : Block) (names : List String) (withArgs : Bool) : Prop :=
  ∃ address f, frame.Leads names address (Match.chain f) ∧ f.accepts withArgs = true

/-- The matches are those of the innermost frame that offers any. -/
def Scope.Decides (scope : Scope) (names : List String) (withArgs : Bool) (found : List Match) : Prop :=
  (∃ inner frame outer, scope = inner ++ frame :: outer ∧ (∀ b ∈ inner, ¬b.Offers names withArgs) ∧
      frame.Offers names withArgs ∧ frame.Enumerates names withArgs found) ∨
    (∀ b ∈ scope, ¬b.Offers names withArgs) ∧ found = []

/-- A block around a match comes first in the chain. -/
lemma Match.chain_within (outer : Block) (found : Match) :
    (found.within outer).chain = outer :: found.chain := rfl

/-- A match is made of its chain. -/
lemma Match.chain_injective : Function.Injective Match.chain := by
  rintro ⟨block, enclosing⟩ ⟨block', enclosing'⟩ h
  obtain ⟨rfl, hlast⟩ := List.append_inj' h rfl
  cases hlast
  rfl

/-- A chain along several names is a child that goes by the first one, and a chain inside it along the
others. -/
lemma Block.Leads.cons_iff {b : Block} {name : String} {names : List String} {address : List Nat}
    {chain : List Block} :
    b.Leads (name :: names) address chain ↔ ∃ index c address' chain', b.children[index]? = some c ∧
      c.goesBy name = true ∧ address = index :: address' ∧ chain = c :: chain' ∧
      c.Leads names address' chain' := by
  constructor
  · intro h
    cases h with
    | inward hchild hname hrest => exact ⟨_, _, _, _, hchild, hname, rfl, rfl, hrest⟩
  · rintro ⟨index, c, address', chain', hchild, hname, rfl, rfl, hrest⟩
    exact .inward hchild hname hrest

/-- Where no names are left the chain has ended. -/
lemma Block.Leads.nil_iff {b : Block} {address : List Nat} {chain : List Block} :
    b.Leads [] address chain ↔ address = [] ∧ chain = [] := by
  constructor
  · intro h
    cases h
    exact ⟨rfl, rfl⟩
  · rintro ⟨rfl, rfl⟩
    exact .here

/-- A chain to which at least one name leads is that of a match. -/
lemma Block.Leads.exists_chain_eq {b : Block} {name : String} {names : List String}
    {address : List Nat} {chain : List Block} (h : b.Leads (name :: names) address chain) :
    ∃ f : Match, f.chain = chain := by
  have hne : chain ≠ [] := by
    cases h
    exact List.cons_ne_nil _ _
  exact ⟨⟨chain.getLast hne, chain.dropLast⟩, List.dropLast_concat_getLast hne⟩

/-! ## The search, with addresses

The search that knows no memory, with the address of each match kept. Without the addresses it is
`Block.search` (`Block.map_snd_locate`); with them it can be said that every chain is found, once and in
order. -/

/-- The matches in the child with the given index that goes by the first name. The last name is the
child's own. -/
def Block.locateIn (locate : Block → List (List Nat × Match)) (isLast : Bool) (entry : Block × Nat) :
    List (List Nat × Match) :=
  if isLast then [([entry.2], ⟨entry.1, []⟩)]
  else (locate entry.1).map (Prod.map (entry.2 :: ·) (Match.within entry.1))

/-- The matches inside a block that names lead to, each with its address. -/
def Block.locate : (names : List String) → Block → List (List Nat × Match)
  | [], _ => []
  | name :: rest, b =>
    b.children.zipIdx.flatMap fun entry =>
      if entry.1.goesBy name then Block.locateIn (Block.locate rest) rest.isEmpty entry else []

/-- Without names nothing is found. -/
lemma Block.search_nil (b : Block) : b.search [] = [] := by
  simp [Block.search, Block.searchHere]

/-- The search finds what is located, if the addresses are left out. -/
lemma Block.map_snd_locate (names : List String) (b : Block) :
    (b.locate names).map Prod.snd = b.search names := by
  induction names generalizing b with
  | nil => exact b.search_nil.symm
  | cons name rest ih =>
    have hchild : ∀ entry : Block × Nat,
        (if entry.1.goesBy name then Block.locateIn (Block.locate rest) rest.isEmpty entry
          else []).map Prod.snd = entry.1.searchHere (name :: rest) := by
      rintro ⟨c, index⟩
      cases rest with
      | nil =>
        rw [Block.searchHere]
        split <;> rfl
      | cons second rest =>
        simp only [Block.searchHere]
        split
        · have hinner := congrArg (List.map (Match.within c)) (ih c)
          rw [List.map_map] at hinner
          rw [Block.locateIn, List.isEmpty_cons, if_neg Bool.false_ne_true, List.map_map]
          exact hinner
        · rfl
    rw [Block.locate, List.map_flatMap, Block.search]
    simp only [hchild]
    rw [← List.flatMap_map Prod.fst, List.zipIdx_map_fst]

/-- What is located in a child is what is located inside it, with the place of the child put before each
address. -/
lemma Block.mem_locateIn {names : List String} {c : Block} {index : Nat} {address : List Nat} {f : Match}
    (ih : ∀ {address : List Nat} {f : Match},
      (address, f) ∈ c.locate names ↔ c.Leads names address f.chain) :
    (address, f) ∈ Block.locateIn (Block.locate names) names.isEmpty (c, index) ↔
      ∃ address' chain, address = index :: address' ∧ f.chain = c :: chain ∧
        c.Leads names address' chain := by
  cases names with
  | nil =>
    simp only [Block.locateIn, List.isEmpty_nil, if_true, List.mem_singleton, Prod.mk.injEq,
      Block.Leads.nil_iff]
    constructor
    · rintro ⟨rfl, rfl⟩
      exact ⟨[], [], rfl, rfl, rfl, rfl⟩
    · rintro ⟨_, _, rfl, hchain, rfl, rfl⟩
      exact ⟨rfl, Match.chain_injective (hchain : f.chain = Match.chain ⟨c, []⟩)⟩
  | cons name names =>
    simp only [Block.locateIn, List.isEmpty_cons, Bool.false_eq_true, if_false, List.mem_map,
      Prod.exists, Prod.map_apply, Prod.mk.injEq]
    constructor
    · rintro ⟨address', f', hmem, rfl, rfl⟩
      exact ⟨address', f'.chain, rfl, f'.chain_within c, ih.mp hmem⟩
    · rintro ⟨address', chain, rfl, hchain, hleads⟩
      obtain ⟨f', rfl⟩ := hleads.exists_chain_eq
      exact ⟨address', f', ih.mpr hleads, rfl, Match.chain_injective hchain.symm⟩

/-- What is located is what names lead to. -/
lemma Block.mem_locate {names : List String} {b : Block} {address : List Nat} {f : Match} :
    (address, f) ∈ b.locate names ↔ b.Leads names address f.chain := by
  induction names generalizing b address f with
  | nil =>
    rw [Block.Leads.nil_iff]
    simp [Block.locate, Match.chain]
  | cons name rest ih =>
    rw [Block.Leads.cons_iff, Block.locate, List.mem_flatMap]
    constructor
    · rintro ⟨⟨c, index⟩, hentry, hmem⟩
      split at hmem
      · next hname =>
        obtain ⟨address', chain, haddress, hchain, hleads⟩ := (Block.mem_locateIn ih).mp hmem
        have hchild := List.mem_zipIdx_iff_getElem?.mp hentry
        exact ⟨index, c, address', chain, hchild, hname, haddress, hchain, hleads⟩
      · cases hmem
    · rintro ⟨index, c, address', chain, hchild, hname, haddress, hchain, hleads⟩
      refine ⟨(c, index), List.mem_zipIdx_iff_getElem?.mpr hchild, ?_⟩
      rw [if_pos hname]
      exact (Block.mem_locateIn ih).mpr ⟨address', chain, haddress, hchain, hleads⟩

/-- The first index of an address in a child is that of the child. -/
lemma Block.exists_cons_of_mem_locateIn {locate : Block → List (List Nat × Match)} {isLast : Bool}
    {entry : Block × Nat} {address : List Nat}
    (h : address ∈ (Block.locateIn locate isLast entry).map Prod.fst) :
    ∃ rest, address = entry.2 :: rest := by
  obtain ⟨⟨address, f⟩, hmem, rfl⟩ := List.mem_map.mp h
  unfold Block.locateIn at hmem
  split at hmem
  · cases List.mem_singleton.mp hmem
    exact ⟨[], rfl⟩
  · obtain ⟨⟨rest, _⟩, -, heq⟩ := List.mem_map.mp hmem
    exact ⟨rest, (congrArg Prod.fst heq).symm⟩

/-- What is located is in document order. Addresses of one child begin with its place and are in order
behind it, and children come in the order of their places. -/
lemma Block.pairwise_locate (names : List String) (b : Block) :
    ((b.locate names).map Prod.fst).Pairwise (· < ·) := by
  induction names generalizing b with
  | nil => exact .nil
  | cons name rest ih =>
    have hindices : b.children.zipIdx.Pairwise fun e e' => e.2 < e'.2 := by
      rw [← List.pairwise_map (f := Prod.snd), List.zipIdx_map_snd]
      exact List.pairwise_lt_range'
    rw [Block.locate, List.map_flatMap, List.pairwise_flatMap]
    constructor
    · -- inside one child, by the rest of the addresses
      rintro ⟨c, index⟩ -
      split
      · unfold Block.locateIn
        split
        · exact List.pairwise_singleton _ _
        · rw [List.map_map]
          have hinner := ih c
          rw [List.pairwise_map] at hinner ⊢
          exact hinner.imp fun h => List.cons_lt_cons_self.mpr h
      · exact .nil
    · -- from one child to a later one, by the index
      refine hindices.imp ?_
      intro e e' hlt address haddress address' haddress'
      split at haddress
      · split at haddress'
        · obtain ⟨rest, rfl⟩ := Block.exists_cons_of_mem_locateIn haddress
          obtain ⟨rest', rfl⟩ := Block.exists_cons_of_mem_locateIn haddress'
          exact List.Lex.rel hlt
        · cases haddress'
      · cases haddress

/-- A frame is searched for the chains that names lead to. -/
lemma Block.search_enumerates (frame : Block) (names : List String) :
    frame.Enumerates names false (frame.search names) :=
  ⟨frame.locate names, frame.map_snd_locate names, frame.pairwise_locate names,
    fun address f => by rw [Block.mem_locate]; simp [Match.accepts]⟩

/-- Leaving out what a call cannot use leaves the rest in order. -/
lemma Block.filter_search_enumerates (frame : Block) (names : List String) (withArgs : Bool) :
    frame.Enumerates names withArgs ((frame.search names).filter fun f => f.accepts withArgs) := by
  refine ⟨(frame.locate names).filter fun entry => entry.2.accepts withArgs, ?_, ?_, ?_⟩
  · rw [← frame.map_snd_locate, List.filter_map]
    rfl
  · exact (frame.pairwise_locate names).sublist (List.filter_sublist.map Prod.fst)
  · intro address f
    rw [List.mem_filter, Block.mem_locate]

/-- A frame offers something exactly if something of use is found. -/
lemma Block.offers_iff (frame : Block) (names : List String) (withArgs : Bool) :
    frame.Offers names withArgs ↔
      (frame.search names).filter (fun f => f.accepts withArgs) ≠ [] := by
  obtain ⟨located, hfound, -, hmem⟩ := frame.filter_search_enumerates names withArgs
  rw [← hfound]
  constructor
  · rintro ⟨address, f, hf⟩ hnil
    have hlocated := (hmem address f).mpr hf
    rw [List.map_eq_nil_iff.mp hnil] at hlocated
    cases hlocated
  · intro hne
    have hlocated : located ≠ [] := by
      rintro rfl
      exact hne rfl
    obtain ⟨⟨address, f⟩, hlocated⟩ := List.exists_mem_of_ne_nil located hlocated
    exact ⟨address, f, (hmem address f).mp hlocated⟩

/-! ## Searches that meet no readings

A search fixes readings in the blocks that it passes, and these would be met again if one of the blocks
stood in another place too. Where no stamp occurs twice this cannot happen: each part of the search finds
its blocks unread, whatever the parts before it have read. -/

mutual

/-- The stamps of a block and of the blocks nested in it, in document order. -/
def Block.stamps : Block → List Nat
  | ⟨stamp, _, rules, _⟩ => stamp :: Node.stampsAmong rules

/-- The stamps of the blocks among rules and of the blocks nested in them. -/
def Node.stampsAmong : List Node → List Nat
  | [] => []
  | .block b :: rest => b.stamps ++ Node.stampsAmong rest
  | _ :: rest => Node.stampsAmong rest

end

/-- In the blocks with these stamps nothing has been looked up. -/
def Memory.Unread (m : Memory) (stamps : List Nat) : Prop :=
  ∀ stamp ∈ stamps, ∀ text, m.reading? stamp text = none

/-- `x` settles readings in no blocks but those with these stamps. -/
def ReadsOnly (stamps : List Nat) (x : StateM Memory α) : Prop :=
  ∀ m stamp, stamp ∉ stamps → ∀ text, (x.run m).2.reading? stamp text = m.reading? stamp text

/-- A rule that is no block brings no stamps. -/
lemma Node.stampsAmong_of_not_block {r : Node} (h : r.shape.isBlock = false) (rest : List Node) :
    Node.stampsAmong (r :: rest) = Node.stampsAmong rest := by
  cases r with
  | block b => cases h
  | _ => rfl

namespace ReadsOnly

variable {stamps : List Nat} {x : StateM Memory α} {k : α → StateM Memory β}

/-- A value at hand reads nothing. -/
lemma pure (a : α) : ReadsOnly stamps (pure a) :=
  fun _ _ _ _ => rfl

/-- What two steps read is what either of them reads. -/
lemma bind (hx : ReadsOnly stamps x) (hk : ∀ a, ReadsOnly stamps (k a)) :
    ReadsOnly stamps (x >>= k) :=
  fun m stamp h text => (hk _ _ stamp h text).trans (hx m stamp h text)

/-- What is done with the result reads nothing. -/
lemma map (hx : ReadsOnly stamps x) (f : α → β) : ReadsOnly stamps (f <$> x) :=
  fun m stamp h text => hx m stamp h text

/-- Fewer blocks are read than may be. -/
lemma mono {more : List Nat} (hx : ReadsOnly stamps x) (h : stamps ⊆ more) : ReadsOnly more x :=
  fun m stamp hstamp text => hx m stamp (fun hmem => hstamp (h hmem)) text

/-- Reading a selector at a block touches that block only. -/
lemma readAt (stamp : Nat) (s : Selector) (rest : List Nat) :
    ReadsOnly (stamp :: rest) (readAt stamp s) := by
  intro m other hother text
  cases hreading : m.reading? stamp s.toCss with
  | some first => rw [readAt_of_some hreading]
  | none =>
    rw [readAt_of_none hreading]
    refine Memory.reading?_record_of_ne ?_ s
    rintro ⟨rfl, -⟩
    exact hother List.mem_cons_self

/-- A search that reads other blocks leaves unread what was unread. -/
lemma unread {others : List Nat} {m : Memory} (hx : ReadsOnly stamps x) (hm : m.Unread others)
    (h : ∀ stamp ∈ others, stamp ∉ stamps) : (x.run m).2.Unread others := by
  intro stamp hstamp text
  rw [hx m stamp (h stamp hstamp) text]
  exact hm stamp hstamp text

end ReadsOnly

/-- A child is searched within its own stamps, if searches inside it are. -/
lemma Block.findHere_readsOnly {child : Block} (h : ∀ s, ReadsOnly child.stamps (child.find s))
    (s : Selector) : ReadsOnly child.stamps (child.findHere s) := by
  unfold Block.findHere
  split
  · split
    · exact (h _).map _
    · exact .pure _
  · exact .pure _

/-- A search among rules reads blocks among these rules only. -/
lemma Block.findAmong_readsOnly {rules : List Node}
    (h : ∀ c, Node.block c ∈ rules → ∀ s, ReadsOnly c.stamps (c.find s)) (s : Selector) :
    ReadsOnly (Node.stampsAmong rules) (Block.findAmong rules s) := by
  induction rules with
  | nil => exact .pure _
  | cons r rest ih =>
    have hrest := ih fun c hc => h c (List.mem_cons_of_mem r hc)
    cases r with
    | block child =>
      rw [Block.findAmong_block, Node.stampsAmong]
      have hhere := Block.findHere_readsOnly (h child List.mem_cons_self) s
      apply (hhere.mono (List.subset_append_left _ _)).bind
      intro here
      apply (hrest.mono (List.subset_append_right _ _)).bind
      intro others
      exact .pure _
    | _ =>
      rw [Block.findAmong_of_not_block rfl, Node.stampsAmong_of_not_block rfl]
      exact hrest

/-- A search settles readings only in the blocks that it looks through. -/
lemma Block.find_readsOnly (b : Block) (s : Selector) : ReadsOnly b.stamps (b.find s) := by
  have key : (∀ n : Node, ∀ b, n = .block b → ∀ s, ReadsOnly b.stamps (b.find s)) ∧
      ∀ b : Block, ∀ s, ReadsOnly b.stamps (b.find s) := by
    refine Node.joint_induction (fun n _ hblock b hb => hblock b hb) ?_
    intro b hrules _ _ s
    obtain ⟨stamp, selectors, rules, kind⟩ := b
    rw [Block.find, Block.stamps]
    apply (ReadsOnly.readAt stamp s _).bind
    intro first
    refine ReadsOnly.mono ?_ (List.subset_cons_self _ _)
    exact Block.findAmong_readsOnly (fun c hc => hrules _ hc c rfl) first
  exact key.2 b s

/-- A child that was never read is searched by names alone, if what is inside it is. -/
lemma Block.findHere_unread {child : Block} {m : Memory} {s : Selector}
    (h : ∀ tail, s.tail? = some tail → ((child.find tail).run m).1 = child.search tail.names) :
    ((child.findHere s).run m).1 = child.searchHere s.names := by
  unfold Block.findHere
  rw [Block.answersTo_eq]
  obtain ⟨elements⟩ := s
  match elements with
  | [] => rfl
  | [e] =>
    simp only [Selector.names, List.map_cons, List.map_nil, List.head?_cons, Option.any_some,
      Block.searchHere, Selector.tail?]
    split <;> rfl
  | e :: second :: rest =>
    have htail := h (.ofElements (second :: rest)) rfl
    rw [Selector.names_ofElements] at htail
    simp only [Selector.names, List.map_cons, List.head?_cons, Option.any_some,
      Block.searchHere, Selector.tail?]
    split
    · exact congrArg (List.map (Match.within child)) htail
    · rfl

/-- Rules whose blocks were never read are searched by names alone. No stamp occurs twice, so a reading
that is fixed in one of them does not show in another. -/
lemma Block.findAmong_unread {rules : List Node}
    (h : ∀ c, Node.block c ∈ rules → ∀ s m, c.stamps.Nodup → m.Unread c.stamps →
      ((c.find s).run m).1 = c.search s.names)
    (hnodup : (Node.stampsAmong rules).Nodup) {m : Memory} (hm : m.Unread (Node.stampsAmong rules))
    (s : Selector) :
    ((Block.findAmong rules s).run m).1 =
      (rules.filterMap Node.block?).flatMap (Block.searchHere s.names) := by
  induction rules generalizing m with
  | nil => rfl
  | cons r rest ih =>
    have hrest := ih fun c hc => h c (List.mem_cons_of_mem r hc)
    cases r with
    | block child =>
      rw [Node.stampsAmong, List.nodup_append] at hnodup
      obtain ⟨hchild, hothers, hdisjoint⟩ := hnodup
      rw [Node.stampsAmong] at hm
      have hhere : ((child.findHere s).run m).1 = child.searchHere s.names :=
        Block.findHere_unread fun tail _ => h child List.mem_cons_self tail m hchild
          fun stamp hstamp => hm stamp (List.mem_append_left _ hstamp)
      -- the rest has other stamps, so searching the child has settled nothing there
      have hunread : ((child.findHere s).run m).2.Unread (Node.stampsAmong rest) := by
        refine (Block.findHere_readsOnly child.find_readsOnly s).unread
          (fun stamp hstamp => hm stamp (List.mem_append_right _ hstamp)) ?_
        intro stamp hstamp hmem
        exact hdisjoint stamp hmem stamp hstamp rfl
      rw [Block.findAmong_block]
      exact congrArg₂ (· ++ ·) hhere (hrest hothers hunread)
    | _ =>
      rw [Node.stampsAmong_of_not_block rfl] at hnodup hm
      rw [Block.findAmong_of_not_block rfl]
      exact hrest hnodup hm

/-- **Where nothing has been looked up and no block stands twice, a search gives what its names lead
to.** Each block is looked through at most once, so no reading that the search settles is met again. -/
theorem Block.find_unread (b : Block) (hnodup : b.stamps.Nodup) {m : Memory} (hm : m.Unread b.stamps)
    (s : Selector) : ((b.find s).run m).1 = b.search s.names := by
  have key : (∀ n : Node, ∀ b, n = .block b → ∀ s m, b.stamps.Nodup → m.Unread b.stamps →
      ((b.find s).run m).1 = b.search s.names) ∧
      ∀ b : Block, ∀ s m, b.stamps.Nodup → m.Unread b.stamps →
        ((b.find s).run m).1 = b.search s.names := by
    refine Node.joint_induction (fun n _ hblock b hb => hblock b hb) ?_
    intro b hrules _ _ s m hnodup hm
    obtain ⟨stamp, selectors, rules, kind⟩ := b
    rw [Block.stamps] at hnodup hm
    obtain ⟨hstamp, hnodup⟩ := List.nodup_cons.mp hnodup
    have hread := readAt_of_none (hm stamp List.mem_cons_self s.toCss)
    have hunread : ((readAt stamp s).run m).2.Unread (Node.stampsAmong rules) := by
      refine (ReadsOnly.readAt stamp s []).unread
        (fun other hother => hm other (List.mem_cons_of_mem stamp hother)) ?_
      intro other hother hmem
      rw [List.mem_singleton.mp hmem] at hother
      exact hstamp hother
    rw [Block.find, StateT.run_bind]
    rw [hread] at hunread ⊢
    exact Block.findAmong_unread (fun c hc => hrules _ hc c rfl) hnodup hunread s
  exact key.2 b s m hnodup hm

/-! ## No block is found twice -/

/-- The stamps among rules are those of the children, each with what is nested in it. -/
lemma Node.stampsAmong_eq_flatMap (rules : List Node) :
    Node.stampsAmong rules = (rules.filterMap Node.block?).flatMap Block.stamps := by
  induction rules with
  | nil => rfl
  | cons r rest ih =>
    cases r with
    | block b => exact congrArg (b.stamps ++ ·) ih
    | _ => exact ih

/-- The stamps of a block are its own one and those of its children, in their order. -/
lemma Block.stamps_eq (b : Block) : b.stamps = b.stamp :: b.children.flatMap Block.stamps := by
  obtain ⟨stamp, selectors, rules, kind⟩ := b
  rw [Block.stamps, Node.stampsAmong_eq_flatMap]
  rfl

/-- The blocks found stand in different places, one after the other: their stamps are a part of the list
of all stamps, in its order. -/
lemma Block.sublist_stamps_search (names : List String) (b : Block) :
    ((b.search names).map fun f => f.block.stamp).Sublist (b.children.flatMap Block.stamps) := by
  induction names generalizing b with
  | nil =>
    rw [Block.search_nil]
    exact List.nil_sublist _
  | cons name rest ih =>
    have hchild : ∀ c : Block,
        ((c.searchHere (name :: rest)).map fun f => f.block.stamp).Sublist c.stamps := by
      intro c
      rw [Block.stamps_eq]
      cases rest with
      | nil =>
        rw [Block.searchHere]
        split
        · exact List.Sublist.cons_cons _ (List.nil_sublist _)
        · exact List.nil_sublist _
      | cons second rest =>
        simp only [Block.searchHere]
        split
        · rw [List.map_map]
          exact (ih c).trans (List.sublist_cons_self _ _)
        · exact List.nil_sublist _
    rw [Block.search, List.map_flatMap]
    generalize b.children = children
    induction children with
    | nil => exact List.nil_sublist _
    | cons c children ihc =>
      rw [List.flatMap_cons, List.flatMap_cons]
      exact (hchild c).append ihc

/-- No block is found twice, since no stamp occurs twice. -/
lemma Block.nodup_stamps_search {b : Block} (h : b.stamps.Nodup) (names : List String) :
    ((b.search names).map fun f => f.block.stamp).Nodup := by
  rw [Block.stamps_eq] at h
  exact (List.nodup_cons.mp h).2.sublist (b.sublist_stamps_search names)

/-! ## Scopes

A frame is searched if the frames further inward offer nothing, and by then those have been read.
`Memory.UnreadInTurn` asks of each frame, when its turn comes, that nothing has been looked up in it. -/

/-- When the frame's turn comes, nothing has been looked up in it. -/
def Memory.UnreadInTurn (s : Selector) : Scope → Memory → Prop
  | [], _ => True
  | frame :: outer, m => m.Unread frame.stamps ∧ UnreadInTurn s outer ((frame.find s).run m).2

/-- Frames without a block in common are all unread in their turn if they are unread before. -/
lemma Memory.unreadInTurn_of_disjoint {s : Selector} {scope : Scope} {m : Memory}
    (hm : ∀ frame ∈ scope, m.Unread frame.stamps)
    (hdisjoint : scope.Pairwise fun b c => ∀ stamp ∈ c.stamps, stamp ∉ b.stamps) :
    m.UnreadInTurn s scope := by
  induction scope generalizing m with
  | nil => trivial
  | cons frame outer ih =>
    obtain ⟨hframe, houter⟩ := List.pairwise_cons.mp hdisjoint
    refine ⟨hm frame List.mem_cons_self, ih (fun b hb => ?_) houter⟩
    exact (frame.find_readsOnly s).unread (hm b (List.mem_cons_of_mem frame hb)) (hframe b hb)

/-- The innermost frame decides, or the frames further out do. -/
lemma Scope.Decides.cons {frame : Block} {outer : Scope} {names : List String} {withArgs : Bool}
    {found : List Match} (hframe : ¬frame.Offers names withArgs)
    (h : Scope.Decides outer names withArgs found) :
    Scope.Decides (frame :: outer) names withArgs found := by
  rcases h with ⟨inner, b, rest, rfl, hinner, hb⟩ | ⟨hnone, hfound⟩
  · exact .inl ⟨frame :: inner, b, rest, rfl, List.forall_mem_cons.mpr ⟨hframe, hinner⟩, hb⟩
  · exact .inr ⟨List.forall_mem_cons.mpr ⟨hframe, hnone⟩, hfound⟩

/-- One frame is searched, and the frames further out only if it offers nothing. -/
lemma resolve_cons {s : Selector} {withArgs : Bool} {frame : Block} {outer : Scope} {m : Memory}
    (hframe : ((frame.find s).run m).1 = frame.search s.names)
    (houter : ¬frame.Offers s.names withArgs →
      Scope.Decides outer s.names withArgs
        ((resolve s withArgs outer).run ((frame.find s).run m).2).1) :
    Scope.Decides (frame :: outer) s.names withArgs
      ((resolve s withArgs (frame :: outer)).run m).1 := by
  rw [resolve, StateT.run_bind]
  generalize (frame.find s).run m = found at hframe houter ⊢
  obtain ⟨found, m'⟩ := found
  dsimp only at hframe houter
  subst hframe
  dsimp only [bind, Id.run]
  by_cases hoffers : frame.Offers s.names withArgs
  · have hne := (frame.offers_iff s.names withArgs).mp hoffers
    rw [if_neg (by rw [List.isEmpty_iff]; exact hne)]
    exact .inl ⟨[], frame, outer, rfl, by simp, hoffers,
      frame.filter_search_enumerates s.names withArgs⟩
  · have hnil := not_ne_iff.mp (mt (frame.offers_iff s.names withArgs).mpr hoffers)
    rw [if_pos (by rw [List.isEmpty_iff]; exact hnil)]
    exact (houter hoffers).cons hoffers

/-- In a scope that was never read, resolving comes to what the names decide. -/
lemma resolve_decides_of_unread {s : Selector} {withArgs : Bool} {scope : Scope} {m : Memory}
    (hnodup : ∀ frame ∈ scope, frame.stamps.Nodup) (hm : m.UnreadInTurn s scope) :
    Scope.Decides scope s.names withArgs ((resolve s withArgs scope).run m).1 := by
  induction scope generalizing m with
  | nil => exact .inr ⟨by simp, rfl⟩
  | cons frame outer ih =>
    apply resolve_cons
    · exact frame.find_unread (hnodup frame List.mem_cons_self) hm.1 s
    · intro _
      exact ih (fun b hb => hnodup b (List.mem_cons_of_mem frame hb)) hm.2

/-- **A search names chains.** Where no block stands in two places and nothing has been looked up yet, a
search in a frame gives the chains that the selector names, each once and in document order, and no block
twice. A search in a scope gives all of those chains of the innermost frame that has any of use for the
call, and nothing if there is no such frame. -/
theorem resolution_enumerates (s : Selector) :
    (∀ {frame : Block} {m : Memory}, frame.stamps.Nodup → m.Unread frame.stamps →
      frame.Enumerates s.names false ((frame.find s).run m).1 ∧
        (((frame.find s).run m).1.map fun f => f.block.stamp).Nodup) ∧
    ∀ {scope : Scope} {m : Memory} (withArgs : Bool), (∀ frame ∈ scope, frame.stamps.Nodup) →
      m.UnreadInTurn s scope →
      Scope.Decides scope s.names withArgs ((resolve s withArgs scope).run m).1 := by
  constructor
  · intro frame m hnodup hm
    rw [frame.find_unread hnodup hm]
    exact ⟨frame.search_enumerates s.names, Block.nodup_stamps_search hnodup s.names⟩
  · intro scope m withArgs hnodup hm
    exact resolve_decides_of_unread hnodup hm

/-- A frame in which `#a` stands twice, both times with `.b` in it. -/
def Block.twiceSample (stamp : Nat) : Block :=
  ⟨stamp, [], [
    .block ⟨stamp + 1, [⟨[⟨.descendant, "#a"⟩]⟩], [
      .block ⟨stamp + 2, [⟨[⟨.descendant, ".b"⟩]⟩], [], .plain⟩,
      .block ⟨stamp + 3, [⟨[⟨.descendant, ".c"⟩]⟩, ⟨[⟨.descendant, ".b"⟩]⟩], [], .definition []⟩],
      .plain⟩,
    .block ⟨stamp + 4, [⟨[⟨.descendant, "#a"⟩]⟩], [
      .block ⟨stamp + 5, [⟨[⟨.descendant, ".b"⟩, ⟨.compound, ".d"⟩]⟩], [], .plain⟩], .plain⟩], .plain⟩

/-- A search for `#a > .b` in a frame that has three such chains, and in a scope in which an empty frame
comes first. -/
theorem resolution_enumerates_twiceSample :
    let s := Selector.ofElements [⟨.descendant, "#a"⟩, ⟨.child, ".b"⟩]
    ((Block.twiceSample 0).stamps.Nodup ∧ Memory.empty.Unread (Block.twiceSample 0).stamps ∧
      (((Block.twiceSample 0).find s).run .empty).1.map (fun f => f.block.stamp) = [2, 3, 5] ∧
      (Block.twiceSample 0).Enumerates s.names false (((Block.twiceSample 0).find s).run .empty).1) ∧
    Memory.empty.UnreadInTurn s [⟨6, [], [], .plain⟩, .twiceSample 0] ∧
      ((resolve s true [⟨6, [], [], .plain⟩, .twiceSample 0]).run .empty).1.map (fun f => f.block.stamp) =
        [3] ∧
      Scope.Decides [⟨6, [], [], .plain⟩, .twiceSample 0] s.names true
        ((resolve s true [⟨6, [], [], .plain⟩, .twiceSample 0]).run .empty).1 := by
  intro s
  have hunread : ∀ stamps, Memory.empty.Unread stamps := fun _ _ _ _ => Memory.reading?_empty _ _
  have hnodup : (Block.twiceSample 0).stamps.Nodup := by decide
  have hturn : Memory.empty.UnreadInTurn s [⟨6, [], [], .plain⟩, .twiceSample 0] := by
    refine Memory.unreadInTurn_of_disjoint (fun _ _ => hunread _) ?_
    simp only [List.pairwise_cons, List.mem_singleton, forall_eq, List.not_mem_nil, false_imp_iff,
      implies_true, List.Pairwise.nil, and_true]
    decide
  have hall : ∀ frame ∈ [⟨6, [], [], .plain⟩, Block.twiceSample 0], frame.stamps.Nodup := by
    simp only [List.mem_cons, List.not_mem_nil, or_false, forall_eq_or_imp, forall_eq]
    exact ⟨by decide, hnodup⟩
  exact ⟨⟨hnodup, hunread _, by decide +kernel, ((resolution_enumerates s).1 hnodup (hunread _)).1⟩, hturn,
    by decide +kernel, (resolution_enumerates s).2 true hall hturn⟩

/-- **Among selectors that are told apart, every search names chains**, whatever has been looked up before
and whichever blocks the frames have in common. -/
theorem resolve_decides_of_toldApart {F : Selector → Prop} (hapart : Selector.ToldApart F)
    (htail : ∀ s t, F s → s.tail? = some t → F t) {s : Selector} (hs : F s) (withArgs : Bool)
    (scope : Scope) {m : Memory} (hm : m.Holds F) :
    Scope.Decides scope s.names withArgs ((resolve s withArgs scope).run m).1 := by
  induction scope generalizing m with
  | nil => exact .inr ⟨by simp, rfl⟩
  | cons frame outer ih =>
    obtain ⟨hfound, hholds⟩ := Block.find_settled hapart htail hs frame m hm
    apply resolve_cons hfound
    intro _
    exact ih hholds

end Stylesheet
