import AbiBuild.Proofs.Dependency.Impact
import AbiBuild.Proofs.Dependency.Stored

/-!
# Every order of search finds the same

A search keeps the classes it has met, those it has gone on from or will, and those that still wait
to be visited.  Whichever of them comes next, and in whatever order the edges there are looked at,
the search ends, and what it has met by then is the impact of the change.
-/

namespace AbiBuild.Dependency.Graph

structure Search where
  impacted : Names
  visited : Names
  waiting : List String

namespace Search

def start (root : String) : Search := ⟨∅, Names.ofList [root], [root]⟩

/-- An edge to a dependent is looked at.  A dependent that is met by a private edge first is still
gone on from when a public one leads to it later. -/
def meet (search : Search) (edge : Edge) : Search :=
  if edge.direction = .outgoing then
    if !edge.isPrivate && !search.visited.contains edge.peer then
      ⟨search.impacted.insert edge.peer, search.visited.insert edge.peer,
        edge.peer :: search.waiting⟩
    else { search with impacted := search.impacted.insert edge.peer }
  else search

/-- One of the waiting classes is visited, and its edges in any order. -/
inductive Visits (graph : Graph) : Search → Search → Prop
  | visit {search : Search} {name : String} {waiting : List String} {edges : List Edge}
      (chosen : search.waiting.Perm (name :: waiting))
      (ordered : edges.Perm (graph.edgesOf name).toList) :
      Visits graph search (edges.foldl meet { search with waiting })

/-! ## What looking at edges does -/

section Meeting

variable (search : Search) (name : String)

private theorem mem_impacted_meet (edge : Edge) :
    name ∈ (search.meet edge).impacted ↔
      (∃ isPrivate, (⟨.outgoing, isPrivate, name⟩ : Edge) = edge) ∨ name ∈ search.impacted := by
  obtain ⟨direction, isPrivate, peer⟩ := edge
  unfold meet
  cases direction with
  | incoming => simp
  | outgoing =>
      rw [if_pos rfl]
      split <;> simp [@eq_comm _ name]

private theorem mem_visited_meet (edge : Edge) :
    name ∈ (search.meet edge).visited ↔
      ⟨.outgoing, false, name⟩ = edge ∨ name ∈ search.visited := by
  obtain ⟨direction, isPrivate, peer⟩ := edge
  unfold meet
  cases direction with
  | incoming => simp
  | outgoing =>
      cases isPrivate with
      | true => simp
      | false =>
          by_cases known : search.visited.contains peer
          · have member : peer ∈ search.visited := Std.ExtTreeSet.mem_iff_contains.mpr known
            simp only [known, Bool.not_true, Bool.and_false, if_true, Bool.false_eq_true, if_false,
              Edge.mk.injEq, true_and]
            constructor
            · exact .inr
            · rintro (rfl | listed)
              · exact member
              · exact listed
          · simp [known, @eq_comm _ name]

private theorem mem_waiting_meet (edge : Edge) :
    name ∈ (search.meet edge).waiting ↔
      (⟨.outgoing, false, name⟩ = edge ∧ name ∉ search.visited) ∨ name ∈ search.waiting := by
  obtain ⟨direction, isPrivate, peer⟩ := edge
  unfold meet
  cases direction with
  | incoming => simp
  | outgoing =>
      cases isPrivate with
      | true => simp
      | false =>
          by_cases known : search.visited.contains peer
          · have member : peer ∈ search.visited := Std.ExtTreeSet.mem_iff_contains.mpr known
            simp only [known, Bool.not_true, Bool.and_false, if_true, Bool.false_eq_true, if_false,
              Edge.mk.injEq, true_and]
            constructor
            · exact .inr
            · rintro (⟨rfl, unknown⟩ | listed)
              · exact absurd member unknown
              · exact listed
          · have absent : peer ∉ search.visited := mt Std.ExtTreeSet.mem_iff_contains.mp known
            simp only [known, Bool.not_false, Bool.and_self, if_true, List.mem_cons, Edge.mk.injEq,
              true_and]
            refine or_congr_left ?_
            constructor
            · rintro rfl
              exact ⟨rfl, absent⟩
            · rintro ⟨rfl, -⟩
              rfl

variable (edges : List Edge)

theorem mem_impacted_foldl_meet :
    name ∈ (edges.foldl meet search).impacted ↔
      (∃ isPrivate, (⟨.outgoing, isPrivate, name⟩ : Edge) ∈ edges) ∨ name ∈ search.impacted := by
  induction edges generalizing search with
  | nil => simp
  | cons edge edges ih =>
      rw [List.foldl_cons, ih, mem_impacted_meet]
      simp only [List.mem_cons, exists_or]
      rw [or_left_comm, or_assoc]

theorem mem_visited_foldl_meet :
    name ∈ (edges.foldl meet search).visited ↔
      (⟨.outgoing, false, name⟩ : Edge) ∈ edges ∨ name ∈ search.visited := by
  induction edges generalizing search with
  | nil => simp
  | cons edge edges ih =>
      rw [List.foldl_cons, ih, mem_visited_meet, List.mem_cons, or_left_comm, or_assoc]

theorem mem_waiting_foldl_meet :
    name ∈ (edges.foldl meet search).waiting ↔
      ((⟨.outgoing, false, name⟩ : Edge) ∈ edges ∧ name ∉ search.visited) ∨
        name ∈ search.waiting := by
  induction edges generalizing search with
  | nil => simp
  | cons edge edges ih =>
      rw [List.foldl_cons, ih, mem_waiting_meet, mem_visited_meet, List.mem_cons]
      by_cases first : (⟨.outgoing, false, name⟩ : Edge) = edge <;> simp [first]

end Meeting

/-! ## Termination -/

def unvisited (graph : Graph) (search : Search) : Nat :=
  (graph.pool.filter fun name => !search.visited.contains name).length

def weight (graph : Graph) (search : Search) : Nat :=
  2 * unvisited graph search + search.waiting.length

private theorem length_filter_insert_lt {names : List String} {visited : Names} {name : String}
    (listed : name ∈ names) (absent : visited.contains name = false) :
    (names.filter fun other => !(visited.insert name).contains other).length <
      (names.filter fun other => !visited.contains other).length := by
  have fewer : names.filter (fun other => !(visited.insert name).contains other) =
      (names.filter fun other => !visited.contains other).filter fun other =>
        !(compare name other == .eq) := by
    rw [List.filter_filter]
    refine List.filter_congr fun other _ => ?_
    simp
  rw [fewer]
  refine List.length_filter_lt_length_iff_exists.mpr ⟨name, ?_, by simp⟩
  exact List.mem_filter.mpr ⟨listed, by simp [absent]⟩

private theorem weight_meet_le {graph : Graph} (search : Search) {edge : Edge}
    (listed : edge.peer ∈ graph.pool) : weight graph (search.meet edge) ≤ weight graph search := by
  unfold meet
  split
  next =>
    split
    next isNew =>
      rw [Bool.and_eq_true, Bool.not_eq_true', Bool.not_eq_true'] at isNew
      have fewer := length_filter_insert_lt listed isNew.2
      simp only [weight, unvisited, List.length_cons]
      omega
    next => exact Nat.le_refl _
  next => exact Nat.le_refl _

private theorem weight_foldl_meet_le {graph : Graph} (edges : List Edge) (search : Search)
    (listed : ∀ edge ∈ edges, edge.peer ∈ graph.pool) :
    weight graph (edges.foldl meet search) ≤ weight graph search := by
  induction edges generalizing search with
  | nil => exact Nat.le_refl _
  | cons edge edges ih =>
      rw [List.forall_mem_cons] at listed
      rw [List.foldl_cons]
      exact Nat.le_trans (ih _ listed.2) (weight_meet_le search listed.1)

theorem Visits.weight_lt {graph : Graph} {search next : Search} (visits : Visits graph search next) :
    weight graph next < weight graph search := by
  obtain ⟨chosen, ordered⟩ := visits
  rename_i name waiting edges
  have listed : ∀ edge ∈ edges, edge.peer ∈ graph.pool := by
    intro edge member
    have member := Std.ExtTreeSet.mem_toList.mp (ordered.mem_iff.mp member)
    exact (graph.mem_pool edge.peer).mpr (.inr ⟨name, edge, member, rfl⟩)
  have bound := weight_foldl_meet_le edges { search with waiting } listed
  have length : search.waiting.length = waiting.length + 1 := chosen.length_eq
  refine Nat.lt_of_le_of_lt bound ?_
  simp only [weight, unvisited]
  omega

theorem wellFounded_visits (graph : Graph) :
    WellFounded fun next search => Visits graph search next :=
  Subrelation.wf (fun visits => Visits.weight_lt visits) (measure (weight graph)).wf

theorem exists_visits (graph : Graph) {search : Search} (waits : search.waiting ≠ []) :
    ∃ next, Visits graph search next := by
  obtain ⟨name, waiting, split⟩ := List.exists_cons_of_ne_nil waits
  exact ⟨_, .visit (.of_eq split) (.refl _)⟩

/-! ## What has been met -/

structure Knows (graph : Graph) (root : String) (search : Search) : Prop where
  begun : root ∈ search.visited
  waiting : ∀ name ∈ search.waiting, name ∈ search.visited
  reached : ∀ name ∈ search.visited, Relation.ReflTransGen
    (fun name dependent => (⟨.outgoing, false, dependent⟩ : Edge) ∈ graph.edgesOf name) root name
  impacted : ∀ name ∈ search.impacted, ∃ middle ∈ search.visited, ∃ isPrivate,
    (⟨.outgoing, isPrivate, name⟩ : Edge) ∈ graph.edgesOf middle
  finished : ∀ name ∈ search.visited, name ∈ search.waiting ∨ ∀ isPrivate dependent,
    (⟨.outgoing, isPrivate, dependent⟩ : Edge) ∈ graph.edgesOf name →
      dependent ∈ search.impacted ∧ (isPrivate = false → dependent ∈ search.visited)

namespace Knows

variable {graph : Graph} {root : String} {search next : Search}

theorem start : Knows graph root (.start root) where
  begun := by simp [Search.start, Names.mem_ofList]
  waiting := by simp [Search.start, Names.mem_ofList]
  reached := by
    intro name listed
    obtain rfl : name = root := by simpa [Search.start, Names.mem_ofList] using listed
    exact .refl
  impacted := by simp [Search.start]
  finished := by simp [Search.start, Names.mem_ofList]

theorem visits (knows : Knows graph root search) (step : Visits graph search next) :
    Knows graph root next := by
  obtain ⟨chosen, ordered⟩ := step
  rename_i name waiting edges
  have edge_iff : ∀ edge, edge ∈ edges ↔ edge ∈ graph.edgesOf name := fun edge =>
    ordered.mem_iff.trans Std.ExtTreeSet.mem_toList
  have known : name ∈ search.visited := knows.waiting name (chosen.mem_iff.mpr (.head _))
  constructor
  · exact (mem_visited_foldl_meet ..).mpr (.inr knows.begun)
  · intro other waits
    rw [mem_visited_foldl_meet]
    rcases (mem_waiting_foldl_meet ..).mp waits with ⟨added, -⟩ | waits
    · exact .inl added
    · exact .inr (knows.waiting other (chosen.mem_iff.mpr (.tail _ waits)))
  · intro other visited
    rcases (mem_visited_foldl_meet ..).mp visited with added | visited
    · exact (knows.reached name known).tail ((edge_iff _).mp added)
    · exact knows.reached other visited
  · intro other impacted
    rcases (mem_impacted_foldl_meet ..).mp impacted with ⟨isPrivate, added⟩ | impacted
    · exact ⟨name, (mem_visited_foldl_meet ..).mpr (.inr known), isPrivate, (edge_iff _).mp added⟩
    · obtain ⟨middle, visited, edge⟩ := knows.impacted other impacted
      exact ⟨middle, (mem_visited_foldl_meet ..).mpr (.inr visited), edge⟩
  · intro other visited
    -- The chosen class is finished now; of the others those stay that were.
    by_cases same : other = name
    · subst same
      refine .inr fun isPrivate dependent edge => ?_
      have listed := (edge_iff _).mpr edge
      refine ⟨(mem_impacted_foldl_meet ..).mpr (.inl ⟨isPrivate, listed⟩), ?_⟩
      rintro rfl
      exact (mem_visited_foldl_meet ..).mpr (.inl listed)
    · by_cases before : other ∈ search.visited
      · rcases knows.finished other before with waits | finished
        · have waits := (List.mem_cons.mp (chosen.mem_iff.mp waits)).resolve_left same
          exact .inl ((mem_waiting_foldl_meet ..).mpr (.inr waits))
        · refine .inr fun isPrivate dependent edge => ?_
          obtain ⟨impacted, visited⟩ := finished isPrivate dependent edge
          exact ⟨(mem_impacted_foldl_meet ..).mpr (.inr impacted), fun isPublic =>
            (mem_visited_foldl_meet ..).mpr (.inr (visited isPublic))⟩
      · have added := ((mem_visited_foldl_meet ..).mp visited).resolve_right before
        exact .inl ((mem_waiting_foldl_meet ..).mpr (.inl ⟨added, before⟩))

theorem of_run (run : Relation.ReflTransGen (Visits graph) (.start root) search) :
    Knows graph root search := by
  induction run with
  | refl => exact .start
  | tail _ step ih => exact ih.visits step

theorem impacted_eq (knows : Knows graph root search) (ended : search.waiting = []) :
    search.impacted.erase root = graph.impact root := by
  have finished : ∀ name ∈ search.visited, ∀ isPrivate dependent,
      (⟨.outgoing, isPrivate, dependent⟩ : Edge) ∈ graph.edgesOf name →
        dependent ∈ search.impacted ∧ (isPrivate = false → dependent ∈ search.visited) :=
    fun name visited => (knows.finished name visited).resolve_left (by simp [ended])
  apply Std.ExtTreeSet.ext_mem
  intro name
  rw [mem_impact, Std.ExtTreeSet.mem_erase]
  refine and_congr (by simp [@eq_comm _ root]) ?_
  constructor
  · intro impacted
    obtain ⟨middle, visited, isPrivate, edge⟩ := knows.impacted name impacted
    exact ⟨middle, isPrivate, knows.reached middle visited, edge⟩
  · rintro ⟨middle, isPrivate, path, edge⟩
    have visited : middle ∈ search.visited := by
      clear edge
      induction path with
      | refl => exact knows.begun
      | tail _ step ih => exact (finished _ ih _ _ step).2 rfl
    exact (finished middle visited isPrivate name edge).1

end Knows

end Search

/-- The impact of a change is what depends on a class that public dependents lead to, none for a
class without a node, and every search for it ends with just that. -/
theorem impact_is_gated_reachability (graph : Graph) (root : String) :
    (∀ name, name ∈ graph.impact root ↔ name ≠ root ∧ ∃ middle isPrivate,
      Relation.ReflTransGen
        (fun name dependent => (⟨.outgoing, false, dependent⟩ : Edge) ∈ graph.edgesOf name)
        root middle ∧
        (⟨.outgoing, isPrivate, name⟩ : Edge) ∈ graph.edgesOf middle) ∧
    (graph.contains root = false → graph.impact root = ∅) ∧
    (WellFounded fun next search => Search.Visits graph search next) ∧
    ∀ search, Relation.ReflTransGen (Search.Visits graph) (.start root) search →
      (search.waiting ≠ [] → ∃ next, Search.Visits graph search next) ∧
      (search.waiting = [] → search.impacted.erase root = graph.impact root) := by
  refine ⟨fun name => mem_impact, ?_, Search.wellFounded_visits graph, ?_⟩
  · intro absent
    have alone : graph.edgesOf root = ∅ := by
      rw [contains_eq_isSome, Option.isSome_eq_false_iff, Option.isNone_iff_eq_none] at absent
      rw [edgesOf, absent, Option.getD_none]
    apply Std.ExtTreeSet.ext_mem
    intro name
    rw [mem_impact]
    constructor
    · rintro ⟨-, middle, isPrivate, path, edge⟩
      rcases path.cases_head with rfl | ⟨next, step, -⟩
      · simp [alone] at edge
      · simp [alone] at step
    · simp
  · intro search run
    exact ⟨Search.exists_visits graph, (Search.Knows.of_run run).impacted_eq⟩

end AbiBuild.Dependency.Graph
