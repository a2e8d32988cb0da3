import AbiBuild.Surface.Ownership
import Mathlib.Data.Finset.Card
import Mathlib.Logic.Relation

/-!
# Owners of owners

Where no class is among its own owners, the classes above a name get fewer with each owner that is
followed, so as many steps as there are lines lead to the one class around it that has no owner.
-/

namespace AbiBuild.Surface

open Relation

variable {owners : Owners} {name owner top : String}

def OwnedBy (owners : Owners) (name owner : String) : Prop :=
  owners[name]? = some owner

theorem OwnedBy.mem (owned : OwnedBy owners name owner) : name ∈ owners := by
  rw [Std.ExtTreeMap.mem_iff_isSome_getElem?, owned]
  rfl

structure IsOutermost (owners : Owners) (name top : String) : Prop where
  leads : ReflTransGen (OwnedBy owners) name top
  unowned : top ∉ owners

/-- No class is among its own owners. -/
def Acyclic (owners : Owners) : Prop :=
  ∀ name, ¬TransGen (OwnedBy owners) name name

theorem acyclic_of_length_lt
    (shorter : ∀ name owner, OwnedBy owners name owner → owner.length < name.length) :
    Acyclic owners := by
  have decreases : ∀ {first last}, TransGen (OwnedBy owners) first last →
      last.length < first.length := by
    intro first last path
    induction path with
    | single owned => exact shorter _ _ owned
    | tail _ owned ih => exact (shorter _ _ owned).trans ih
  exact fun name cycle => (decreases cycle).false

theorem IsOutermost.of_owner (owned : OwnedBy owners name owner)
    (isTop : IsOutermost owners owner top) : IsOutermost owners name top :=
  ⟨.head owned isTop.leads, isTop.unowned⟩

theorem isOutermost_self (unowned : name ∉ owners) : IsOutermost owners name name :=
  ⟨.refl, unowned⟩

theorem rightUnique_ownedBy : Relator.RightUnique (OwnedBy owners) := fun _ _ _ here there =>
  Option.some.inj (here.symm.trans there)

theorem IsOutermost.unique {other : String} (first : IsOutermost owners name top)
    (second : IsOutermost owners name other) : top = other := by
  have ends : ∀ {above below}, below ∉ owners →
      ReflTransGen (OwnedBy owners) below above → below = above := by
    intro above below unowned path
    rcases path.cases_head with same | ⟨owner, owned, -⟩
    · exact same
    · exact absurd owned.mem unowned
  rcases ReflTransGen.total_of_right_unique rightUnique_ownedBy first.leads second.leads with
    path | path
  · exact ends first.unowned path
  · exact (ends second.unowned path).symm

theorem returns_of_cycle {first last : String} (cycle : TransGen (OwnedBy owners) first first)
    (leads : ReflTransGen (OwnedBy owners) first last) : ReflTransGen (OwnedBy owners) last first := by
  induction leads with
  | refl => exact .refl
  | @tail middle last _ owned ih =>
      obtain ⟨next, here, back⟩ : ∃ next, OwnedBy owners middle next ∧
          ReflTransGen (OwnedBy owners) next first := by
        rcases ih.cases_head with rfl | further
        · exact TransGen.head'_iff.mp cycle
        · exact further
      rwa [rightUnique_ownedBy owned here]

theorem cycle_of_leads {first last : String} (cycle : TransGen (OwnedBy owners) first first)
    (leads : ReflTransGen (OwnedBy owners) first last) : TransGen (OwnedBy owners) last last :=
  (TransGen.trans_right (returns_of_cycle cycle leads) cycle).trans_left leads

/-- Following owners from the name leads to no class that is among its own owners. -/
def AcyclicFrom (owners : Owners) (name : String) : Prop :=
  ∀ ⦃other⦄, ReflTransGen (OwnedBy owners) name other → ¬TransGen (OwnedBy owners) other other

theorem Acyclic.from (acyclic : Acyclic owners) (name : String) : AcyclicFrom owners name :=
  fun other _ => acyclic other

theorem IsOutermost.acyclic (isTop : IsOutermost owners name top) : AcyclicFrom owners name := by
  intro other leads cycle
  have back : ReflTransGen (OwnedBy owners) top other := by
    rcases ReflTransGen.total_of_right_unique rightUnique_ownedBy isTop.leads leads with path | path
    · exact path
    · exact returns_of_cycle cycle path
  obtain ⟨owner, owned, -⟩ := TransGen.head'_iff.mp (TransGen.trans_right back cycle)
  exact isTop.unowned owned.mem

theorem IsOutermost.of_leads {other : String} (isTop : IsOutermost owners name top)
    (leads : ReflTransGen (OwnedBy owners) name other) : IsOutermost owners other top := by
  rcases ReflTransGen.total_of_right_unique rightUnique_ownedBy isTop.leads leads with path | path
  · rcases path.cases_head with rfl | ⟨owner, owned, -⟩
    · exact isOutermost_self isTop.unowned
    · exact absurd owned.mem isTop.unowned
  · exact ⟨path, isTop.unowned⟩

theorem leads_climb (owners : Owners) (steps : Nat) (name : String) :
    ReflTransGen (OwnedBy owners) name (climb owners steps name) := by
  induction steps generalizing name with
  | zero => exact .refl
  | succ steps ih =>
      rw [climb]
      split
      next owner owned => exact .head owned (ih owner)
      next => exact .refl

section Above

open Classical in
private noncomputable def above (owners : Owners) (name : String) : Finset String :=
  owners.keys.toFinset.filter (ReflTransGen (OwnedBy owners) name)

private theorem card_above_le : (above owners name).card ≤ owners.size := by
  classical
  calc (above owners name).card
    _ ≤ owners.keys.toFinset.card := Finset.card_filter_le _ _
    _ ≤ owners.keys.length := List.toFinset_card_le _
    _ = owners.size := Std.ExtTreeMap.length_keys

private theorem mem_above {other : String} :
    other ∈ above owners name ↔ other ∈ owners ∧ ReflTransGen (OwnedBy owners) name other := by
  simp [above]

private theorem card_above_lt (acyclic : ¬TransGen (OwnedBy owners) name name)
    (owned : OwnedBy owners name owner) :
    (above owners owner).card < (above owners name).card := by
  refine Finset.card_lt_card ⟨fun other member => ?_, fun within => ?_⟩
  · obtain ⟨isOwned, path⟩ := mem_above.mp member
    exact mem_above.mpr ⟨isOwned, .head owned path⟩
  · have self : name ∈ above owners name :=
      mem_above.mpr ⟨owned.mem, .refl⟩
    exact acyclic (.head' owned (mem_above.mp (within self)).2)

private theorem climb_ends {steps : Nat} (enough : (above owners name).card ≤ steps) :
    climb owners steps name ∉ owners ∨
      TransGen (OwnedBy owners) (climb owners steps name) (climb owners steps name) := by
  induction steps generalizing name with
  | zero =>
      refine .inl fun isOwned => ?_
      have self : name ∈ above owners name := mem_above.mpr ⟨isOwned, .refl⟩
      rw [Finset.card_eq_zero.mp (Nat.le_zero.mp enough)] at self
      exact Finset.notMem_empty name self
  | succ steps ih =>
      by_cases cycle : TransGen (OwnedBy owners) name name
      · exact .inr (cycle_of_leads cycle (leads_climb owners _ name))
      · rw [climb]
        split
        next owner owned =>
          have fewer := card_above_lt cycle owned
          exact ih (by omega)
        next unowned =>
          refine .inl ?_
          rw [Std.ExtTreeMap.mem_iff_isSome_getElem?, unowned]
          exact Bool.false_ne_true

private theorem IsOutermost.exists_chain (isTop : IsOutermost owners name top) :
    ∃ chain : List String, List.IsChain (OwnedBy owners) (name :: chain) ∧
      (name :: chain).getLast? = some top ∧ chain.length ≤ (above owners name).card := by
  obtain ⟨leads, unowned⟩ := isTop
  induction leads using ReflTransGen.head_induction_on with
  | refl => exact ⟨[], .singleton _, rfl, Nat.zero_le _⟩
  | @head name owner owned leads ih =>
      obtain ⟨chain, links, last, short⟩ := ih
      have fewer := card_above_lt (IsOutermost.acyclic ⟨.head owned leads, unowned⟩ .refl) owned
      exact ⟨owner :: chain, .cons_cons owned links, by rwa [List.getLast?_cons_cons],
        Nat.lt_of_le_of_lt short fewer⟩

theorem isOutermost_outermost (acyclic : AcyclicFrom owners name) :
    IsOutermost owners name (outermost owners name) :=
  have leads := leads_climb owners _ name
  ⟨leads, (climb_ends (card_above_le.trans (Nat.le_succ _))).resolve_right (acyclic leads)⟩

theorem cycle_outermost (cyclic : ¬AcyclicFrom owners name) :
    TransGen (OwnedBy owners) (outermost owners name) (outermost owners name) := by
  refine (climb_ends (card_above_le.trans (Nat.le_succ _))).resolve_left fun unowned => ?_
  exact cyclic (IsOutermost.acyclic ⟨leads_climb owners _ name, unowned⟩)

theorem IsOutermost.exists_short_chain (isTop : IsOutermost owners name top) :
    ∃ chain : List String, List.IsChain (OwnedBy owners) (name :: chain) ∧
      (name :: chain).getLast? = some top ∧ chain.length ≤ owners.size := by
  obtain ⟨chain, links, last, short⟩ := isTop.exists_chain
  exact ⟨chain, links, last, short.trans card_above_le⟩

end Above

theorem IsOutermost.eq_outermost (isTop : IsOutermost owners name top) :
    top = outermost owners name :=
  isTop.unique (isOutermost_outermost isTop.acyclic)

theorem isOutermost_iff (acyclic : Acyclic owners) :
    IsOutermost owners name top ↔ top = outermost owners name := by
  constructor
  · exact IsOutermost.eq_outermost
  · rintro rfl
    exact isOutermost_outermost (acyclic.from name)

/-! ## The way up -/

theorem IsOutermost.congr {more : Owners} (isTop : IsOutermost owners name top)
    (same : ∀ other, ReflTransGen (OwnedBy owners) name other → more[other]? = owners[other]?) :
    IsOutermost more name top := by
  obtain ⟨leads, unowned⟩ := isTop
  refine ⟨?_, ?_⟩
  · clear unowned
    induction leads with
    | refl => exact .refl
    | tail path owned ih => exact ih.tail ((same _ path).trans owned)
  · rwa [Std.ExtTreeMap.mem_iff_isSome_getElem?, same top leads,
      ← Std.ExtTreeMap.mem_iff_isSome_getElem?]

/-- What the walk from a name ends with if it meets no cycle. -/
structure ReachesTop (owners : Owners) (name top : String) : Prop where
  unowned : top ∉ owners
  /-- The walk takes at most one step for each line of the table. -/
  chain : ∃ chain : List String, List.IsChain (OwnedBy owners) (name :: chain) ∧
    (name :: chain).getLast? = some top ∧ chain.length ≤ owners.size
  unique : ∀ last, IsOutermost owners name last → last = top
  idempotent : outermost owners top = top
  /-- All names on the way lead to the same end. -/
  shared : ∀ other, ReflTransGen (OwnedBy owners) name other → outermost owners other = top
  /-- Lines about names off the way do not matter. -/
  stable : ∀ more : Owners,
    (∀ other, ReflTransGen (OwnedBy owners) name other → more[other]? = owners[other]?) →
      outermost more name = top

/-- Where the walk ends if it meets a cycle: on that cycle. -/
structure EndsOnCycle (owners : Owners) (name last : String) : Prop where
  leads : ReflTransGen (OwnedBy owners) name last
  cycle : ∀ other, ReflTransGen (OwnedBy owners) name other →
    TransGen (OwnedBy owners) other other →
      TransGen (OwnedBy owners) other last ∧ TransGen (OwnedBy owners) last other

/-- A walk that meets no cycle ends at the one name without an owner above it.  Any other walk ends
as well, on the cycle that it has entered. -/
theorem owner_walk_reaches_the_top (owners : Owners) (name : String) :
    (AcyclicFrom owners name → ReachesTop owners name (outermost owners name)) ∧
      (¬AcyclicFrom owners name → EndsOnCycle owners name (outermost owners name)) := by
  constructor
  · intro acyclic
    have isTop := isOutermost_outermost acyclic
    exact
      { unowned := isTop.unowned
        chain := isTop.exists_short_chain
        unique := fun _ other => other.unique isTop
        idempotent := (isOutermost_self isTop.unowned).eq_outermost.symm
        shared := fun _ path => ((isTop.of_leads path).eq_outermost).symm
        stable := fun _ same => (isTop.congr same).eq_outermost.symm }
  · intro cyclic
    have leads : ReflTransGen (OwnedBy owners) name (outermost owners name) :=
      leads_climb owners _ name
    have here := cycle_outermost cyclic
    refine ⟨leads, fun other path cycle => ?_⟩
    rcases ReflTransGen.total_of_right_unique rightUnique_ownedBy path leads with along | along
    · exact ⟨cycle.trans_left along, TransGen.trans_right (returns_of_cycle cycle along) cycle⟩
    · exact ⟨TransGen.trans_right (returns_of_cycle here along) here, here.trans_left along⟩

/-- A class two levels down, and two classes that are each said to own the other. -/
def tangled : Owners :=
  Std.ExtTreeMap.ofList
    [("a/Outer$Mid$Leaf", "a/Outer$Mid"), ("a/Outer$Mid", "a/Outer"), ("b/Left", "b/Right"),
      ("b/Right", "b/Left")] compare

theorem owner_walk_reaches_the_top_tangled :
    ReachesTop tangled "a/Outer$Mid$Leaf" "a/Outer" ∧ EndsOnCycle tangled "b/Left" "b/Right" := by
  obtain ⟨owned, owned', unowned, round, back, top, last⟩ :
      OwnedBy tangled "a/Outer$Mid$Leaf" "a/Outer$Mid" ∧ OwnedBy tangled "a/Outer$Mid" "a/Outer" ∧
        "a/Outer" ∉ tangled ∧ OwnedBy tangled "b/Left" "b/Right" ∧
        OwnedBy tangled "b/Right" "b/Left" ∧ outermost tangled "a/Outer$Mid$Leaf" = "a/Outer" ∧
        outermost tangled "b/Left" = "b/Right" := by
    simp only [OwnedBy]
    decide +kernel
  have isTop : IsOutermost tangled "a/Outer$Mid$Leaf" "a/Outer" :=
    .of_owner owned (.of_owner owned' (isOutermost_self unowned))
  have cyclic : ¬AcyclicFrom tangled "b/Left" := fun acyclic => acyclic .refl (.head round (.single back))
  rw [← top, ← last]
  exact ⟨(owner_walk_reaches_the_top tangled _).1 isTop.acyclic,
    (owner_walk_reaches_the_top tangled _).2 cyclic⟩

end AbiBuild.Surface
