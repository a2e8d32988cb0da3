import AbiBuild.Proofs.Session.Dropping
import AbiBuild.Proofs.Session.Inverse
import AbiBuild.Proofs.Session.Reflects

/-!
# A batch is taken in at once

Refreshing goes over a batch three times and changes what it goes by on the way.  Still, what comes of
it can be told from the session before, the types that the sources declare and the units of these
types, and so it does not depend on the order of the batch.
-/

namespace AbiBuild.Session

open Files FileSystem Dependency SessionAction

variable {toolchain : Toolchain} {outputRoot : Path} {sources others : List Path}
  {before after next : OpenSession}

/-! ## What a batch stands for -/

def IsMentioned (toolchain : Toolchain) (outputRoot : Path) (before after : OpenSession)
    (sources : List Path) (name : String) : Prop :=
  ∃ source ∈ sources, ∃ type abi isPrivate,
    toolchain.typeDeclaredBy before.world.files source = .ok type ∧
      toolchain.surfaceOf after.world.files
        (Outputs.unitPath outputRoot type toolchain.outputExtension) = .ok abi ∧
      (name, isPrivate) ∈ abi.referencedTypes

structure TakenIn (toolchain : Toolchain) (outputRoot : Path) (sources : List Path)
    (before after : OpenSession) (learned : List (Declaration × SourceAbi)) : Prop extends
    Refreshed toolchain outputRoot sources before after learned where
  paired : before.session.Paired
  healthy : before.session.graph.Healthy
  named : ∀ entry ∈ learned, entry.2.className = entry.1.name
  partitioned : ∀ entry ∈ learned, entry.2.Partitioned
  apart : learned.Pairwise fun first second => first.2.className ≠ second.2.className
  coherent : learned.Pairwise fun first second =>
    second.1.source.location = first.1.source.location → second.2.className = first.2.className

namespace TakenIn

variable {learned : List (Declaration × SourceAbi)}
  (takenIn : TakenIn toolchain outputRoot sources before after learned)
include takenIn

theorem mem_learned_iff {source : Path} {name : String} {abi : SourceAbi} :
    (⟨source, name⟩, abi) ∈ learned ↔ source ∈ sources ∧
      toolchain.typeDeclaredBy before.world.files source = .ok name ∧
      toolchain.surfaceOf after.world.files
        (Outputs.unitPath outputRoot name toolchain.outputExtension) = .ok abi := by
  constructor
  · intro member
    have surface := takenIn.surfaces _ member
    exact ⟨takenIn.mem_sources member, takenIn.declared _ member, surface⟩
  · rintro ⟨listed, declares, reads⟩
    obtain ⟨entry, member, rfl⟩ := takenIn.exists_entry listed
    have declared := takenIn.declared entry member
    have surface := takenIn.surfaces entry member
    rw [declares, Except.ok.injEq] at declared
    rw [← declared, reads, Except.ok.injEq] at surface
    rw [declared, surface]
    exact member

theorem declared_iff (name : String) : (∃ entry ∈ learned, entry.2.className = name) ↔
    ∃ source ∈ sources, toolchain.typeDeclaredBy before.world.files source = .ok name := by
  constructor
  · rintro ⟨entry, member, rfl⟩
    refine ⟨_, takenIn.mem_sources member, ?_⟩
    rw [takenIn.declared entry member, takenIn.named entry member]
  · rintro ⟨source, listed, declares⟩
    obtain ⟨entry, member, rfl⟩ := takenIn.exists_entry listed
    refine ⟨entry, member, ?_⟩
    rw [takenIn.named entry member]
    exact Except.ok.inj ((takenIn.declared entry member).symm.trans declares)

theorem unclaimed_iff (name : String) : (∀ entry ∈ learned, entry.2.className ≠ name) ↔
    ∀ source ∈ sources, toolchain.typeDeclaredBy before.world.files source ≠ .ok name := by
  simpa using not_congr (takenIn.declared_iff name)

theorem mentioned_iff (name : String) :
    (∃ entry ∈ learned, ∃ isPrivate, (name, isPrivate) ∈ entry.2.referencedTypes) ↔
      IsMentioned toolchain outputRoot before after sources name := by
  constructor
  · rintro ⟨entry, member, isPrivate, mentions⟩
    exact ⟨_, takenIn.mem_sources member, _, _, isPrivate, takenIn.declared entry member,
      takenIn.surfaces entry member, mentions⟩
  · rintro ⟨source, listed, type, abi, isPrivate, declares, reads, mentions⟩
    exact ⟨_, takenIn.mem_learned_iff.mpr ⟨listed, declares, reads⟩, isPrivate, mentions⟩

theorem forgets_iff (name : String) :
    before.session.Forgets (learned.map (·.1)) (learned.map (·.1)) name ↔
      Drops toolchain before sources name := by
  refine takenIn.paired.forgets_iff_drops ?_ ?_ name
  · rw [← takenIn.sources, List.map_map, Function.comp_def]
  · intro declaration listed
    obtain ⟨entry, member, rfl⟩ := List.mem_map.mp listed
    exact takenIn.declared entry member

theorem loses : Loses (Drops toolchain before sources) before.session
    ((learned.map (·.1)).foldl (dropPrevious (learned.map (·.1))) before.session) := by
  have loses := takenIn.paired.loses_foldl_dropPrevious (List.Subset.refl (learned.map (·.1)))
  have same : before.session.Forgets (learned.map (·.1)) (learned.map (·.1)) =
      Drops toolchain before sources := funext fun name => propext (takenIn.forgets_iff name)
  rwa [same] at loses

/-! ### The session afterwards -/

theorem healthy_after : after.session.graph.Healthy := by
  rw [takenIn.session]
  exact healthy_learnAll (takenIn.loses.healthy takenIn.healthy) takenIn.partitioned

theorem paired_after : after.session.Paired :=
  takenIn.paired.refreshed takenIn.toRefreshed takenIn.named takenIn.coherent

theorem classes (name : String) (path : Path) :
    after.session.classToSource[name]? = some path ↔
      path ∈ sources ∧ toolchain.typeDeclaredBy before.world.files path = .ok name ∨
      (∀ source ∈ sources, toolchain.typeDeclaredBy before.world.files source ≠ .ok name) ∧
        before.session.classToSource[name]? = some path ∧
          ¬Drops toolchain before sources name := by
  rw [takenIn.session, getElem?_classToSource_learnAll takenIn.apart, takenIn.loses.classes,
    takenIn.unclaimed_iff]
  refine or_congr_left ?_
  constructor
  · rintro ⟨entry, member, rfl, rfl⟩
    rw [takenIn.named entry member]
    exact ⟨takenIn.mem_sources member, takenIn.declared entry member⟩
  · rintro ⟨listed, declares⟩
    obtain ⟨entry, member, rfl⟩ := takenIn.exists_entry listed
    refine ⟨entry, member, ?_, rfl⟩
    rw [takenIn.named entry member]
    exact Except.ok.inj ((takenIn.declared entry member).symm.trans declares)

theorem contains (name : String) : after.session.graph.contains name ↔
    (∃ source ∈ sources, toolchain.typeDeclaredBy before.world.files source = .ok name) ∨
      IsMentioned toolchain outputRoot before after sources name ∨
      before.session.graph.contains name ∧ ¬Drops toolchain before sources name := by
  have dropped := takenIn.paired.contains_foldl_dropPrevious
    (List.Subset.refl (learned.map (·.1))) name
  rw [takenIn.forgets_iff] at dropped
  rw [takenIn.session,
    contains_learnAll (takenIn.loses.healthy takenIn.healthy) takenIn.partitioned, dropped,
    ← takenIn.declared_iff, ← takenIn.mentioned_iff, ← or_assoc]
  refine or_congr_left ?_
  simp only [and_or_left, exists_or]

theorem depends (name type : String) (isPrivate : Bool) :
    after.session.graph.DependsOn name type isPrivate ↔
      (∃ source ∈ sources, ∃ abi,
        toolchain.typeDeclaredBy before.world.files source = .ok name ∧
          toolchain.surfaceOf after.world.files
            (Outputs.unitPath outputRoot name toolchain.outputExtension) = .ok abi ∧
          (type, isPrivate) ∈ abi.referencedTypes) ∨
      (∀ source ∈ sources, toolchain.typeDeclaredBy before.world.files source ≠ .ok name) ∧
        before.session.graph.DependsOn name type isPrivate ∧
          ¬Drops toolchain before sources name ∧ ¬Drops toolchain before sources type := by
  rw [takenIn.session, dependsOn_learnAll (takenIn.loses.healthy takenIn.healthy)
    takenIn.partitioned takenIn.apart, takenIn.loses.depends takenIn.healthy, takenIn.unclaimed_iff]
  refine or_congr_left ?_
  constructor
  · rintro ⟨entry, member, rfl, mentions⟩
    rw [takenIn.named entry member]
    exact ⟨_, takenIn.mem_sources member, _, takenIn.declared entry member,
      takenIn.surfaces entry member, mentions⟩
  · rintro ⟨source, listed, abi, declares, reads, mentions⟩
    have member := takenIn.mem_learned_iff.mpr ⟨listed, declares, reads⟩
    exact ⟨_, member, takenIn.named _ member, mentions⟩

end TakenIn

/-! ## The same from every order -/

@[simp] theorem isCold_record (session : Session) (name : String) (source : Path) :
    (session.record name source).isCold = session.isCold := by
  unfold record
  split
  · dsimp only
    split <;> rfl
  · rfl

theorem isCold_learnAll (session : Session) (learned : List (Declaration × SourceAbi)) :
    (session.learnAll learned).isCold = session.isCold := by
  induction learned generalizing session with
  | nil => rfl
  | cons entry learned ih =>
      rw [learnAll_cons, ih, learn, isCold_record]

theorem isCold_foldl_dropPrevious (batch part : List Declaration) (session : Session) :
    (part.foldl (dropPrevious batch) session).isCold = session.isCold := by
  induction part generalizing session with
  | nil => rfl
  | cons declaration part ih =>
      rw [List.foldl_cons, ih, dropPrevious_eq]
      split <;> rfl

/-- With types and sources in agreement, and dependencies known on both sides, a session is told by its
types, its nodes and its dependencies. -/
theorem Paired.ext {first second : Session} (paired : first.Paired) (paired' : second.Paired)
    (mirrored : first.graph.Mirrored) (mirrored' : second.graph.Mirrored)
    (cold : first.isCold = second.isCold)
    (classes : ∀ (name : String) (path : Path),
      first.classToSource[name]? = some path ↔ second.classToSource[name]? = some path)
    (nodes : ∀ name, first.graph.contains name ↔ second.graph.contains name)
    (depends : ∀ name type isPrivate,
      first.graph.DependsOn name type isPrivate ↔ second.graph.DependsOn name type isPrivate) :
    first = second := by
  have graphs := mirrored.ext mirrored' nodes depends
  have byClass : first.classToSource = second.classToSource :=
    Std.ExtTreeMap.ext_getElem? fun name => Option.ext (classes name)
  have bySource : first.sourceToClass = second.sourceToClass := by
    refine Std.ExtTreeMap.ext_getElem? fun location => Option.ext fun name => ?_
    rw [paired, paired', byClass]
  cases first
  cases second
  simp only [Session.mk.injEq]
  exact ⟨byClass, bySource, graphs, cold⟩

/-- The sources declare pairwise different types. -/
def DeclareApart (toolchain : Toolchain) (files : FileSystem) (sources : List Path) : Prop :=
  sources.Pairwise fun first second => ∀ name, toolchain.typeDeclaredBy files first = .ok name →
    toolchain.typeDeclaredBy files second ≠ .ok name

theorem DeclareApart.perm {files : FileSystem} (apart : DeclareApart toolchain files sources)
    (perm : others.Perm sources) : DeclareApart toolchain files others :=
  (perm.pairwise_iff fun apart name here there => apart name there here).mpr apart

theorem exists_takenIn (paired : before.session.Paired) (healthy : before.session.graph.Healthy)
    (apart : DeclareApart toolchain before.world.files sources)
    (alike : DeclareAlike toolchain before.world.files sources)
    (faithful : ReadsFaithfully toolchain outputRoot sources before.world.files after.world.files)
    (partitioned : ∀ path abi, toolchain.surfaceOf after.world.files path = .ok abi →
      abi.Partitioned)
    (succeeds : refresh toolchain outputRoot sources before = .ok () after) :
    ∃ learned, TakenIn toolchain outputRoot sources before after learned := by
  obtain ⟨learned, refreshed⟩ := (ends_refresh toolchain outputRoot sources before).of_ok succeeds
  have named := refreshed.className_eq faithful
  refine ⟨learned, refreshed, paired, healthy, named,
    fun entry member => partitioned _ _ (refreshed.surfaces entry member), ?_,
    refreshed.coherent named alike⟩
  rw [DeclareApart, ← refreshed.sources, List.pairwise_map] at apart
  refine apart.imp_of_mem ?_
  intro first second hfirst hsecond different same
  refine different _ (refreshed.declared first hfirst) ?_
  rw [refreshed.declared second hsecond, ← named first hfirst, ← named second hsecond, same]

theorem TakenIn.session_eq {learned learned' : List (Declaration × SourceAbi)}
    (takenIn : TakenIn toolchain outputRoot sources before after learned)
    (takenIn' : TakenIn toolchain outputRoot others before next learned')
    (same : ∀ source, source ∈ others ↔ source ∈ sources)
    (files : next.world.files = after.world.files) : next.session = after.session := by
  have drops : ∀ name, Drops toolchain before others name ↔ Drops toolchain before sources name :=
    drops_congr same
  have cold : ∀ {sources after learned},
      TakenIn toolchain outputRoot sources before after learned →
        after.session.isCold = before.session.isCold := by
    intro sources after learned takenIn
    rw [takenIn.session, isCold_learnAll, isCold_foldl_dropPrevious]
  refine Paired.ext takenIn'.paired_after takenIn.paired_after takenIn'.healthy_after.mirrored
    takenIn.healthy_after.mirrored ((cold takenIn').trans (cold takenIn).symm) ?_ ?_ ?_
  · intro name path
    rw [takenIn'.classes, takenIn.classes]
    simp only [same, drops]
  · intro name
    rw [takenIn'.contains, takenIn.contains]
    simp only [same, drops, IsMentioned, files]
  · intro name type isPrivate
    rw [takenIn'.depends, takenIn.depends]
    simp only [same, drops, files]

/-- What comes of a batch that is taken in. -/
structure TakesIn (toolchain : Toolchain) (outputRoot : Path) (sources : List Path)
    (before after : OpenSession) : Prop where
  /-- Declared types are recorded under their sources, and of the other types those that are not
  dropped stay. -/
  classes : ∀ (name : String) (path : Path), after.session.classToSource[name]? = some path ↔
    path ∈ sources ∧ toolchain.typeDeclaredBy before.world.files path = .ok name ∨
    (∀ source ∈ sources, toolchain.typeDeclaredBy before.world.files source ≠ .ok name) ∧
      before.session.classToSource[name]? = some path ∧ ¬Drops toolchain before sources name
  gone : ∀ name, before.session.graph.contains name → (¬after.session.graph.contains name ↔
    Drops toolchain before sources name ∧ ¬IsMentioned toolchain outputRoot before after sources name)
  new : ∀ name, ¬before.session.graph.contains name → (after.session.graph.contains name ↔
    (∃ source ∈ sources, toolchain.typeDeclaredBy before.world.files source = .ok name) ∨
      IsMentioned toolchain outputRoot before after sources name)
  /-- A declared type depends on what its unit mentions. -/
  surfaces : ∀ source ∈ sources, ∃ name abi,
    toolchain.typeDeclaredBy before.world.files source = .ok name ∧
      toolchain.surfaceOf after.world.files
        (Outputs.unitPath outputRoot name toolchain.outputExtension) = .ok abi ∧
      ∀ (type : String) (isPrivate : Bool),
        (after.session.graph.dependenciesOf name)[type]? = some isPrivate ↔
          (type, isPrivate) ∈ abi.referencedTypes
  /-- Any other type that stays depends on what it depended on, without the dropped types. -/
  others : ∀ name, (∀ source ∈ sources, toolchain.typeDeclaredBy before.world.files source ≠ .ok name) →
    ¬Drops toolchain before sources name → ∀ (type : String) (isPrivate : Bool),
      (after.session.graph.dependenciesOf name)[type]? = some isPrivate ↔
        (before.session.graph.dependenciesOf name)[type]? = some isPrivate ∧
          ¬Drops toolchain before sources type
  dropped : ∀ name, Drops toolchain before sources name →
    after.session.graph.dependenciesOf name = ∅
  /-- Only existing outputs of dropped types are removed. -/
  outputs : Prunes (DropsAt toolchain outputRoot before sources) before.world.files after.world.files

theorem TakenIn.takesIn {learned : List (Declaration × SourceAbi)}
    (takenIn : TakenIn toolchain outputRoot sources before after learned)
    (outputs : Prunes (DropsAt toolchain outputRoot before sources) before.world.files
      after.world.files) : TakesIn toolchain outputRoot sources before after where
  classes := takenIn.classes
  gone name there := by
    rw [takenIn.contains]
    constructor
    · intro gone
      rw [not_or, not_or, not_and_not_right] at gone
      exact ⟨gone.2.2 there, gone.2.1⟩
    · rintro ⟨drops, unmentioned⟩ (⟨source, listed, declares⟩ | mentioned | ⟨-, kept⟩)
      · exact drops.unclaimed source listed declares
      · exact unmentioned mentioned
      · exact kept drops
  new name missing := by
    rw [takenIn.contains]
    simp only [missing, false_and, or_false, Bool.false_eq_true]
  surfaces source listed := by
    obtain ⟨entry, member, rfl⟩ := takenIn.exists_entry listed
    refine ⟨_, _, takenIn.declared entry member, takenIn.surfaces entry member, fun type isPrivate => ?_⟩
    rw [Graph.getElem?_dependenciesOf takenIn.healthy_after.settled, takenIn.depends]
    constructor
    · rintro (⟨source, listed', abi, declares, reads, mentions⟩ | ⟨unclaimed, -⟩)
      · rw [takenIn.surfaces entry member, Except.ok.injEq] at reads
        rwa [reads]
      · exact absurd (takenIn.declared entry member) (unclaimed _ listed)
    · exact fun mentions => .inl ⟨_, listed, _, takenIn.declared entry member,
        takenIn.surfaces entry member, mentions⟩
  others name unclaimed kept type isPrivate := by
    rw [Graph.getElem?_dependenciesOf takenIn.healthy_after.settled,
      Graph.getElem?_dependenciesOf takenIn.healthy.settled, takenIn.depends]
    constructor
    · rintro (⟨source, listed, -, declares, -⟩ | ⟨-, depends, -, keeps⟩)
      · exact absurd declares (unclaimed source listed)
      · exact ⟨depends, keeps⟩
    · exact fun ⟨depends, keeps⟩ => .inr ⟨unclaimed, depends, kept, keeps⟩
  dropped name drops := by
    refine Std.ExtTreeMap.ext_getElem? fun type => Option.ext fun isPrivate => ?_
    rw [Graph.getElem?_dependenciesOf takenIn.healthy_after.settled, takenIn.depends]
    simp only [Std.ExtTreeMap.getElem?_empty, reduceCtorEq, iff_false]
    rintro (⟨source, listed, -, declares, -⟩ | ⟨-, -, kept, -⟩)
    · exact drops.unclaimed source listed declares
    · exact kept drops
  outputs := outputs

/-- Unless the host calls missing what is there, two orders of a batch that both succeed come to the
same files and the same session. -/
theorem TakenIn.eq_of_perm {learned : List (Declaration × SourceAbi)}
    (takenIn : TakenIn toolchain outputRoot sources before after learned)
    (wellFormed : before.world.files.WellFormed)
    (apart : DeclareApart toolchain before.world.files sources)
    (alike : DeclareAlike toolchain before.world.files sources)
    (faithful : ReadsFaithfully toolchain outputRoot sources before.world.files after.world.files)
    (partitioned : ∀ path abi, toolchain.surfaceOf after.world.files path = .ok abi →
      abi.Partitioned)
    (succeeds : refresh toolchain outputRoot sources before = .ok () after)
    (honest : some .notFound ∉ before.world.files.refusals) (perm : others.Perm sources)
    (returns : refresh toolchain outputRoot others before = .ok () next) : next = after := by
  have same : ∀ source, source ∈ others ↔ source ∈ sources := fun source => perm.mem_iff
  obtain ⟨notices, outputs⟩ :=
    (ends_refresh_prunes takenIn.paired wellFormed sources).of_ok succeeds
  obtain ⟨noticesOthers, outputsOthers⟩ :=
    (ends_refresh_prunes takenIn.paired wellFormed others).of_ok returns
  rw [dropsAt_congr same] at outputsOthers
  have files : next.world.files = after.world.files := outputsOthers.eq outputs honest
  have alikeOthers : DeclareAlike toolchain before.world.files others :=
    fun source member other otherMember =>
      alike source ((same source).mp member) other ((same other).mp otherMember)
  have faithfulOthers : ReadsFaithfully toolchain outputRoot others before.world.files
      after.world.files := fun source member => faithful source ((same source).mp member)
  obtain ⟨learnedOthers, takenInOthers⟩ := exists_takenIn takenIn.paired takenIn.healthy
    (apart.perm perm) alikeOthers (files ▸ faithfulOthers) (files ▸ partitioned) returns
  have session := takenIn.session_eq takenInOthers same files
  obtain ⟨nextSession, nextFiles, nextNotices⟩ := next
  obtain ⟨afterSession, afterFiles, afterNotices⟩ := after
  simp only [OpenSession.mk.injEq, World.mk.injEq]
  exact ⟨session, files, noticesOthers.trans notices.symm⟩

/-- On a willing host no order of a batch that is taken in fails, when the outputs of the dropped types
can be reached. -/
theorem TakenIn.succeeds_of_perm {learned : List (Declaration × SourceAbi)}
    (takenIn : TakenIn toolchain outputRoot sources before after learned)
    (wellFormed : before.world.files.WellFormed)
    (succeeds : refresh toolchain outputRoot sources before = .ok () after)
    (willing : before.world.files.Willing)
    (reachable : ∀ name, Drops toolchain before sources name →
      Outputs.Reachable before.world.files outputRoot name toolchain.outputExtension)
    (perm : others.Perm sources) :
    ∃ next, refresh toolchain outputRoot others before = .ok () next := by
  have same : ∀ source, source ∈ others ↔ source ∈ sources := fun source => perm.mem_iff
  obtain ⟨-, outputs⟩ := (ends_refresh_prunes takenIn.paired wellFormed sources).of_ok succeeds
  have ends : Ends (refresh toolchain outputRoot others) before _ _ :=
    ends_refresh_prunes takenIn.paired wellFormed others
  cases returns : refresh toolchain outputRoot others before with
  | ok value next => exact ⟨next, rfl⟩
  | error error next =>
      rcases ends.of_error returns willing with
        ⟨source, member, undeclared⟩ | ⟨name, dropped, stuck⟩ |
        ⟨files, prunes, source, member, name, declares, unreadable⟩
      · obtain ⟨entry, listed, rfl⟩ := takenIn.exists_entry ((same source).mp member)
        exact absurd (takenIn.declared entry listed) (undeclared _)
      · have dropped := (drops_congr same name).mp dropped
        exact absurd ((reachable name dropped).removable outputs wellFormed willing.honest
          fun place isOutput => ⟨name, dropped, isOutput⟩) stuck
      · rw [dropsAt_congr same] at prunes
        obtain ⟨entry, listed, rfl⟩ := takenIn.exists_entry ((same source).mp member)
        obtain rfl := Except.ok.inj (declares.symm.trans (takenIn.declared entry listed))
        rw [prunes.eq outputs willing.honest] at unreadable
        exact absurd (takenIn.surfaces entry listed) (unreadable _)

/-- A batch whose sources declare different types, with units of these types, is taken in as a whole,
and every order of it that succeeds comes to the same, unless the host calls missing what is there.
On a willing host all orders succeed when the outputs of the dropped types can be reached. -/
theorem batch_is_taken_in_at_once (paired : before.session.Paired)
    (healthy : before.session.graph.Healthy) (wellFormed : before.world.files.WellFormed)
    (apart : DeclareApart toolchain before.world.files sources)
    (alike : DeclareAlike toolchain before.world.files sources)
    (faithful : ReadsFaithfully toolchain outputRoot sources before.world.files after.world.files)
    (partitioned : ∀ path abi, toolchain.surfaceOf after.world.files path = .ok abi →
      abi.Partitioned)
    (succeeds : refresh toolchain outputRoot sources before = .ok () after) :
    TakesIn toolchain outputRoot sources before after ∧
      (some .notFound ∉ before.world.files.refusals → ∀ others, others.Perm sources →
        (∀ next, refresh toolchain outputRoot others before = .ok () next → next = after) ∧
        (before.world.files.Willing →
          (∀ name, Drops toolchain before sources name →
            Outputs.Reachable before.world.files outputRoot name toolchain.outputExtension) →
          refresh toolchain outputRoot others before = .ok () after)) := by
  obtain ⟨learned, takenIn⟩ :=
    exists_takenIn paired healthy apart alike faithful partitioned succeeds
  obtain ⟨-, outputs⟩ := (ends_refresh_prunes paired wellFormed sources).of_ok succeeds
  refine ⟨takenIn.takesIn outputs, fun honest others perm => ?_⟩
  have unique : ∀ next, refresh toolchain outputRoot others before = .ok () next → next = after :=
    fun next => takenIn.eq_of_perm wellFormed apart alike faithful partitioned succeeds honest perm
  refine ⟨unique, fun willing reachable => ?_⟩
  obtain ⟨next, returns⟩ := takenIn.succeeds_of_perm wellFormed succeeds willing reachable perm
  rw [returns, unique next returns]

/-! ### A type renamed onto another source's type -/

section Renaming

def renamingBatch : List Path := [⟨"src/first.java"⟩, ⟨"src/second.java"⟩]

/-- The sources declared `A` and `B`, and `U` depends on both.  Now they declare `B` and `C`, which have
been compiled. -/
def beforeRenaming : OpenSession where
  session :=
    ((empty.learn (.ofTypes "A" [] []) ⟨"src/first.java"⟩).learn (.ofTypes "B" [] [])
      ⟨"src/second.java"⟩).learn (.ofTypes "U" ["A"] ["B"]) ⟨"src/user.java"⟩
  world :=
    { files :=
        { entries := Std.ExtTreeMap.ofList
            [(["out"], .directory), (["out", "A.class"], .file (Text.Utf8.encode "A")),
              (["out", "B.class"], .file (Text.Utf8.encode "B\npublic C")),
              (["out", "C.class"], .file (Text.Utf8.encode "C\nprivate D")),
              (["out", "U.class"], .file (Text.Utf8.encode "U\npublic A\nprivate B")),
              (["src"], .directory),
              (["src", "first.java"], .file (Text.Utf8.encode "B\npublic C")),
              (["src", "second.java"], .file (Text.Utf8.encode "C\nprivate D")),
              (["src", "user.java"], .file (Text.Utf8.encode "U\npublic A\nprivate B"))] compare
          host := { workingDirectory := [] } } }

def afterRenaming : OpenSession :=
  stateAfter (refresh PlainText.toolchain ⟨"out"⟩ renamingBatch) beforeRenaming

theorem healthy_beforeRenaming : beforeRenaming.session.graph.Healthy := by
  have takesIn : ∀ (session : Session) (name : String) (publicTypes privateTypes : List String)
      (source : Path), session.graph.Healthy →
        (session.learn (.ofTypes name publicTypes privateTypes) source).graph.Healthy := by
    intro session name publicTypes privateTypes source healthy
    rw [graph_learn]
    exact healthy.update ⟨_, SourceAbi.partitioned_ofTypes name publicTypes privateTypes⟩
  exact takesIn _ "U" _ _ _ (takesIn _ "B" _ _ _ (takesIn _ "A" _ _ _ .empty))

private theorem renaming_holds :
    returns (refresh PlainText.toolchain ⟨"out"⟩ renamingBatch) beforeRenaming ∧
    beforeRenaming.session.Paired ∧ beforeRenaming.world.files.WellFormed ∧
    ReadsFaithfully PlainText.toolchain ⟨"out"⟩ renamingBatch beforeRenaming.world.files
      afterRenaming.world.files ∧
    (∀ source ∈ renamingBatch,
      (PlainText.typeDeclaredBy beforeRenaming.world.files source).toOption =
        if source = ⟨"src/first.java"⟩ then some "B" else some "C") ∧
    (∀ entry ∈ beforeRenaming.session.classToSource.toList,
      entry.1 = "A" ∨ entry.1 = "B" ∨ ∀ source ∈ renamingBatch, source.location ≠ entry.2.location) ∧
    ∀ path ∈ Outputs.existing beforeRenaming.world.files ⟨"out"⟩ "A" "class",
      beforeRenaming.world.files.isFile path := by
  decide +kernel

/-- The other order comes to the same: `A` is dropped with its unit, and `U` no longer depends on
it. -/
theorem batch_is_taken_in_at_once_renaming :
    refresh PlainText.toolchain ⟨"out"⟩ renamingBatch.reverse beforeRenaming = .ok () afterRenaming ∧
      afterRenaming.session.classToSource["B"]? = some ⟨"src/first.java"⟩ ∧
      afterRenaming.session.classToSource["A"]? = none ∧
      (afterRenaming.session.graph.dependenciesOf "U")["A"]? = none ∧
      (afterRenaming.session.graph.dependenciesOf "U")["B"]? = some true := by
  obtain ⟨succeeds, paired, wellFormed, faithful, declares, listed, removable⟩ := renaming_holds
  obtain ⟨_, succeeds⟩ := exists_of_returns succeeds
  have declaresB : PlainText.toolchain.typeDeclaredBy beforeRenaming.world.files
      ⟨"src/first.java"⟩ = .ok "B" := eq_ok_of_toOption (declares _ (.head _))
  have declaresC : PlainText.toolchain.typeDeclaredBy beforeRenaming.world.files
      ⟨"src/second.java"⟩ = .ok "C" := eq_ok_of_toOption (declares _ (.tail _ (.head _)))
  have drops : ∀ name, Drops PlainText.toolchain beforeRenaming renamingBatch name ↔ name = "A" := by
    intro name
    constructor
    · rintro ⟨⟨path, found, source, member, here⟩, unclaimed⟩
      rcases listed _ (Std.ExtTreeMap.mem_toList_iff_getElem?_eq_some.mpr found) with
        isA | isB | elsewhere
      · exact isA
      · obtain rfl : name = "B" := isB
        exact absurd declaresB (unclaimed _ (.head _))
      · exact absurd here (elsewhere _ member)
    · rintro rfl
      refine ⟨⟨⟨"src/first.java"⟩, by decide +kernel, _, .head _, rfl⟩, ?_⟩
      simp [renamingBatch, declaresB, declaresC]
  have partitioned : ∀ path abi,
      PlainText.toolchain.surfaceOf afterRenaming.world.files path = .ok abi → abi.Partitioned := by
    intro path abi reads
    obtain ⟨text, -, same⟩ := bind_eq_ok.mp reads
    rw [← Except.ok.inj same]
    exact SourceAbi.partitioned_ofTypes _ _ _
  obtain ⟨takesIn, orders⟩ := batch_is_taken_in_at_once paired healthy_beforeRenaming wellFormed
    (by simp [DeclareApart, renamingBatch, declaresB, declaresC])
    (declareAlike_of_text (by decide)) faithful partitioned succeeds
  obtain ⟨-, reversed⟩ := orders (by decide) _ renamingBatch.reverse_perm
  have user := takesIn.others "U" (by simp [renamingBatch, declaresB, declaresC]) (by simp [drops])
  refine ⟨reversed (by simp [Willing, beforeRenaming]) ?_, (takesIn.classes _ _).mpr (.inl ⟨.head _, declaresB⟩), ?_, ?_, ?_⟩
  · intro name dropped path exists'
    rw [(drops name).mp dropped] at exists'
    obtain ⟨place, -, leads, -⟩ :=
      isFile_iff_entryAt?.mp (removable path (Outputs.mem_existing_iff.mpr exists'))
    exact ⟨place, leads⟩
  · refine Option.eq_none_iff_forall_ne_some.mpr fun path found => ?_
    rcases (takesIn.classes _ _).mp found with ⟨listed, declares⟩ | ⟨-, -, kept⟩
    · exact ((drops "A").mpr rfl).unclaimed path listed declares
    · exact kept ((drops "A").mpr rfl)
  · refine Option.eq_none_iff_forall_ne_some.mpr fun isPrivate found => ?_
    exact ((user _ _).mp found).2 ((drops _).mpr rfl)
  · exact (user _ _).mpr ⟨by decide +kernel, by simp [drops]⟩

end Renaming

/-! ### Stored graphs that no surfaces lead to -/

section Unsound

/-- `A.java` declared `D` and now declares `E`; `X` is declared as before.  The graph is as it was
stored. -/
def restored (graph : Graph) : OpenSession where
  session := .ofStored (Std.ExtTreeMap.ofList [("D", ⟨"src/A.java"⟩), ("X", ⟨"src/X.java"⟩)] compare) graph
  world :=
    { files :=
        { entries := Std.ExtTreeMap.ofList
            [(["out"], .directory), (["out", "D.class"], .file (Text.Utf8.encode "D")),
              (["out", "E.class"], .file (Text.Utf8.encode "E")),
              (["out", "X.class"], .file (Text.Utf8.encode "X")), (["src"], .directory),
              (["src", "A.java"], .file (Text.Utf8.encode "E")),
              (["src", "X.java"], .file (Text.Utf8.encode "X"))] compare
          host := { workingDirectory := [] } } }

/-- `X` depends on `D`, but `D` does not know. -/
def oneSided : Graph :=
  (Graph.empty.ensureNode "D").insertEdge "X" ⟨.incoming, false, "D"⟩

/-- `X` depends on `D` both publicly and in private. -/
def twofold : Graph :=
  (Graph.empty.link "X" "D" false).link "X" "D" true

def refreshed (source : Path) (graph : Graph) : OpenSession :=
  stateAfter (refresh PlainText.toolchain ⟨"out"⟩ [source]) (restored graph)

private theorem unsound_holds :
    (restored oneSided).session.Paired ∧ (restored twofold).session.Paired ∧
    returns (refresh PlainText.toolchain ⟨"out"⟩ [⟨"src/A.java"⟩]) (restored oneSided) ∧
    returns (refresh PlainText.toolchain ⟨"out"⟩ [⟨"src/X.java"⟩]) (restored twofold) ∧
    ReadsFaithfully PlainText.toolchain ⟨"out"⟩ [⟨"src/A.java"⟩] (restored oneSided).world.files
      (refreshed ⟨"src/A.java"⟩ oneSided).world.files ∧
    ReadsFaithfully PlainText.toolchain ⟨"out"⟩ [⟨"src/X.java"⟩] (restored twofold).world.files
      (refreshed ⟨"src/X.java"⟩ twofold).world.files ∧
    (restored oneSided).session.classToSource["D"]? = some ⟨"src/A.java"⟩ ∧
    (restored oneSided).session.classToSource["X"]? = some ⟨"src/X.java"⟩ ∧
    (PlainText.typeDeclaredBy (restored oneSided).world.files ⟨"src/A.java"⟩).toOption = some "E" ∧
    (PlainText.typeDeclaredBy (restored twofold).world.files ⟨"src/X.java"⟩).toOption = some "X" ∧
    (PlainText.surfaceOf (refreshed ⟨"src/X.java"⟩ twofold).world.files ⟨"out/X.class"⟩).toOption =
      some (.ofTypes "X" [] []) ∧
    ((refreshed ⟨"src/A.java"⟩ oneSided).session.graph.dependenciesOf "X")["D"]? = some false ∧
    ((refreshed ⟨"src/X.java"⟩ twofold).session.graph.dependenciesOf "X")["D"]? = some false := by
  decide +kernel

/-- With the one graph a type goes on depending on a dropped type, with the other a declared type
depends on more than its unit mentions. -/
theorem unsound_graphs_keep_dependencies :
    ((restored oneSided).session.Paired ∧
      DeclareApart PlainText.toolchain (restored oneSided).world.files [⟨"src/A.java"⟩] ∧
      ReadsFaithfully PlainText.toolchain ⟨"out"⟩ [⟨"src/A.java"⟩] (restored oneSided).world.files
        (refreshed ⟨"src/A.java"⟩ oneSided).world.files ∧
      refresh PlainText.toolchain ⟨"out"⟩ [⟨"src/A.java"⟩] (restored oneSided) =
        .ok () (refreshed ⟨"src/A.java"⟩ oneSided) ∧
      Drops PlainText.toolchain (restored oneSided) [⟨"src/A.java"⟩] "D" ∧
      ¬Drops PlainText.toolchain (restored oneSided) [⟨"src/A.java"⟩] "X" ∧
      PlainText.typeDeclaredBy (restored oneSided).world.files ⟨"src/A.java"⟩ ≠ .ok "X" ∧
      ((refreshed ⟨"src/A.java"⟩ oneSided).session.graph.dependenciesOf "X")["D"]? = some false) ∧
    ((restored twofold).session.Paired ∧
      DeclareApart PlainText.toolchain (restored twofold).world.files [⟨"src/X.java"⟩] ∧
      ReadsFaithfully PlainText.toolchain ⟨"out"⟩ [⟨"src/X.java"⟩] (restored twofold).world.files
        (refreshed ⟨"src/X.java"⟩ twofold).world.files ∧
      refresh PlainText.toolchain ⟨"out"⟩ [⟨"src/X.java"⟩] (restored twofold) =
        .ok () (refreshed ⟨"src/X.java"⟩ twofold) ∧
      PlainText.typeDeclaredBy (restored twofold).world.files ⟨"src/X.java"⟩ = .ok "X" ∧
      PlainText.surfaceOf (refreshed ⟨"src/X.java"⟩ twofold).world.files ⟨"out/X.class"⟩ =
        .ok (.ofTypes "X" [] []) ∧
      ((refreshed ⟨"src/X.java"⟩ twofold).session.graph.dependenciesOf "X")["D"]? = some false) := by
  obtain ⟨paired, pairedTwofold, succeeds, succeedsTwofold, faithful, faithfulTwofold, recordedD,
    recordedX, declaresE, declaresX, surface, keeps, keepsTwofold⟩ := unsound_holds
  obtain ⟨_, succeeds⟩ := exists_of_returns succeeds
  obtain ⟨_, succeedsTwofold⟩ := exists_of_returns succeedsTwofold
  have declaresE : PlainText.toolchain.typeDeclaredBy (restored oneSided).world.files
      ⟨"src/A.java"⟩ = .ok "E" := eq_ok_of_toOption declaresE
  have drops : Drops PlainText.toolchain (restored oneSided) [⟨"src/A.java"⟩] "D" :=
    ⟨⟨_, recordedD, _, .head _, rfl⟩, by simp [declaresE]⟩
  have keepsX : ¬Drops PlainText.toolchain (restored oneSided) [⟨"src/A.java"⟩] "X" := by
    rintro ⟨⟨path, found, source, member, here⟩, -⟩
    obtain rfl := Option.some.inj (recordedX.symm.trans found)
    obtain rfl := List.mem_singleton.mp member
    exact absurd here (by decide)
  have undeclared : PlainText.typeDeclaredBy (restored oneSided).world.files ⟨"src/A.java"⟩ ≠
      .ok "X" := fun declares => absurd (Except.ok.inj (declaresE.symm.trans declares)) (by decide)
  exact ⟨⟨paired, List.pairwise_singleton .., faithful, succeeds, drops, keepsX, undeclared, keeps⟩,
    pairedTwofold, List.pairwise_singleton .., faithfulTwofold, succeedsTwofold,
    eq_ok_of_toOption declaresX, eq_ok_of_toOption surface, keepsTwofold⟩

end Unsound

end AbiBuild.Session
