import AbiBuild.Proofs.Changes.CacheLayout
import AbiBuild.Proofs.Files.Locations

/-!
# Pairs with the same key

A key stands for the absolute forms of two roots, one right after the other with nothing in between.
The same text arises from two pairs only where some components move from the end of the source root
of one pair to the beginning of the output root of the other.  Where that is not so the pairs have
different keys, unless the digest fails to tell their texts apart, and so different places for what
is stored.
-/

namespace AbiBuild

open Files

namespace Files.Path

variable {directory path form : Path}

theorem isAbsolute_directory (files : FileSystem) : files.directory.isAbsolute := by
  simp [FileSystem.directory, isAbsolute]

theorem isAbsolute_join_of_isAbsolute {base : Path} (absolute : base.isAbsolute) (below : String) :
    (base.join below).isAbsolute := by
  have first : base.text.toList.head? = some '/' := by simpa [isAbsolute] using absolute
  rw [join]
  split
  next slash => simpa [isAbsolute] using slash
  next =>
    split <;> simp [isAbsolute, List.head?_append, first]

theorem isAbsolute_absolute? (absolute : directory.isAbsolute)
    (formed : absolute? directory path = some form) : form.isAbsolute := by
  have joins : ∀ (names : List String) (base : Path), base.isAbsolute →
      (names.foldl join base).isAbsolute := by
    intro names
    induction names with
    | nil => exact fun _ => id
    | cons name names ih => exact fun base absolute => ih _ (isAbsolute_join_of_isAbsolute absolute name)
  rw [absolute?] at formed
  split at formed
  next => cases formed
  next =>
    obtain rfl := Option.some.inj formed
    have opens : ∀ slashes : Nat, (if slashes = 0 then directory
        else if slashes = 2 then (⟨"//"⟩ : Path) else ⟨"/"⟩).isAbsolute := by
      intro slashes
      split
      · exact absolute
      · split <;> rfl
    split
    · exact isAbsolute_join_of_isAbsolute (joins _ _ (opens _)) ""
    · exact joins _ _ (opens _)

theorem location_withExtension_state {stem : String} (isName : IsName stem) (directory : Path) :
    ((directory.join (stem ++ "." ++ "bin")).withExtension "tmp").location =
      (directory.join (stem ++ "." ++ "tmp")).location := by
  have stored : IsName (stem ++ "." ++ "bin") := isName.withExtension (by decide)
  have temporary : IsName (stem ++ "." ++ "tmp") := isName.withExtension (by decide)
  have cut : cutAtDot (stem ++ "." ++ "bin") = (stem, some "bin") :=
    cutAtDot_append isName.nonempty (by decide)
  rw [location_withExtension_join stored (by rwa [cut]), cut, location_join _ temporary]

end Files.Path

namespace RootPair

variable {first second form form' : RootPair} {directory : Path}

/-- The absolute forms of both roots. -/
def absolute? (pair : RootPair) (directory : Path) : Option RootPair := do
  pure ⟨← Path.absolute? directory pair.source, ← Path.absolute? directory pair.output⟩

theorem keyText_of_absolute? (formed : first.absolute? directory = some form) :
    first.keyText directory = form.source.text ++ form.output.text := by
  obtain ⟨source, sourceForm, rest⟩ := Option.bind_eq_some_iff.mp formed
  obtain ⟨output, outputForm, same⟩ := Option.bind_eq_some_iff.mp rest
  rw [keyText, sourceForm, outputForm, ← Option.some.inj same]
  rfl

theorem isAbsolute_of_absolute? (absolute : directory.isAbsolute)
    (formed : first.absolute? directory = some form) :
    form.source.isAbsolute ∧ form.output.isAbsolute := by
  obtain ⟨source, sourceForm, rest⟩ := Option.bind_eq_some_iff.mp formed
  obtain ⟨output, outputForm, same⟩ := Option.bind_eq_some_iff.mp rest
  rw [← Option.some.inj same]
  exact ⟨Path.isAbsolute_absolute? absolute sourceForm, Path.isAbsolute_absolute? absolute outputForm⟩

/-- The roots lead to the same components. -/
def SameRoots (first second : RootPair) : Prop :=
  first.source.location = second.source.location ∧ first.output.location = second.output.location

instance (first second : RootPair) : Decidable (first.SameRoots second) :=
  inferInstanceAs (Decidable (_ ∧ _))

/-- Some components stand at the end of the source root of the second pair that the output root of the
first pair begins with instead. -/
def Shifted (first second : RootPair) : Prop :=
  ∃ names : Location, names ≠ [] ∧
    second.source.location = first.source.location ++ names ∧
    first.output.location = .root :: names ++ second.output.location.tail

theorem shifted_iff : first.Shifted second ↔
    first.source.location <+: second.source.location ∧
      second.source.location ≠ first.source.location ∧
      first.output.location = .root ::
        second.source.location.drop first.source.location.length ++ second.output.location.tail := by
  constructor
  · rintro ⟨names, some', source, output⟩
    refine ⟨source ▸ List.prefix_append _ _, ?_, ?_⟩
    · simpa [source] using some'
    · rw [source, List.drop_left, output]
  · rintro ⟨⟨names, source⟩, different, output⟩
    refine ⟨names, ?_, source.symm, ?_⟩
    · simpa [← source] using different
    · rw [output, ← source, List.drop_left]

instance : Decidable (first.Shifted second) := decidable_of_iff _ shifted_iff.symm

theorem shifted_of_append (output : form.output.isAbsolute) (output' : form'.output.isAbsolute)
    (source : form.source.isAbsolute) {rest : List Char}
    (sources : form'.source.text.toList = form.source.text.toList ++ rest)
    (outputs : form.output.text.toList = rest ++ form'.output.text.toList) :
    form.SameRoots form' ∨ form.Shifted form' := by
  have path : ∀ path : Path, path = ⟨String.ofList path.text.toList⟩ := fun path => by simp
  have slash : ∀ {path : Path}, path.isAbsolute → ∃ letters, path.text.toList = '/' :: letters := by
    intro path absolute
    exact List.head?_eq_some_iff.mp (by simpa [Path.isAbsolute] using absolute)
  cases rest with
  | nil =>
      have sameSource : form.source = form'.source := by
        rw [path form.source, path form'.source, sources, List.append_nil]
      have sameOutput : form.output = form'.output := by
        rw [path form.output, path form'.output, outputs, List.nil_append]
      exact .inl ⟨congrArg Path.location sameSource, congrArg Path.location sameOutput⟩
  | cons letter rest =>
      obtain ⟨letters, whole⟩ := slash output
      obtain ⟨letters', whole'⟩ := slash output'
      obtain ⟨opening, whole''⟩ := slash source
      obtain rfl : letter = '/' := by
        rw [whole] at outputs
        exact (List.cons.inj outputs).1.symm
      have sourceLocation : form'.source.location = form.source.location ++
          Path.componentsOf ((Text.pieces '/' rest).map String.ofList) := by
        rw [path form'.source, sources, Path.location_append (by simp [whole''])]
        simp
      have outputLocation' : form'.output.location = .root ::
          Path.componentsOf ((Text.pieces '/' letters').map String.ofList) := by
        rw [path form'.output, whole', Path.location_slash]
      have outputLocation : form.output.location = .root ::
          Path.componentsOf ((Text.pieces '/' rest).map String.ofList) ++
            form'.output.location.tail := by
        rw [path form.output, outputs, whole', List.cons_append, Path.location_slash,
          Text.pieces_append, List.map_append, Path.componentsOf_append, outputLocation',
          List.tail_cons, List.cons_append]
      by_cases none : Path.componentsOf ((Text.pieces '/' rest).map String.ofList) = []
      · refine .inl ⟨by rw [sourceLocation, none, List.append_nil], ?_⟩
        rw [outputLocation, none, outputLocation']
        rfl
      · exact .inr ⟨_, none, sourceLocation, outputLocation⟩

/-- Pairs of different roots have different texts behind their keys, unless their components are
shifted against each other. -/
theorem keyText_ne (absolute : directory.isAbsolute) (formed : first.absolute? directory = some form)
    (formed' : second.absolute? directory = some form') (different : ¬form.SameRoots form')
    (unshifted : ¬form.Shifted form') (unshifted' : ¬form'.Shifted form) :
    first.keyText directory ≠ second.keyText directory := by
  intro same
  obtain ⟨source, output⟩ := isAbsolute_of_absolute? absolute formed
  obtain ⟨source', output'⟩ := isAbsolute_of_absolute? absolute formed'
  rw [keyText_of_absolute? formed, keyText_of_absolute? formed'] at same
  have letters := congrArg String.toList same
  rw [String.toList_append, String.toList_append, List.append_eq_append_iff] at letters
  rcases letters with ⟨rest, sources, outputs⟩ | ⟨rest, sources, outputs⟩
  · rcases shifted_of_append output output' source sources outputs with same | shifted
    · exact different same
    · exact unshifted shifted
  · rcases shifted_of_append output' output source' sources outputs with same | shifted
    · exact different ⟨same.1.symm, same.2.symm⟩
    · exact unshifted' shifted

-- A component that moves from one root to the other does not show.
example : (RootPair.mk ⟨"/a"⟩ ⟨"/b/c"⟩).keyText ⟨"/"⟩ = (RootPair.mk ⟨"/a/b"⟩ ⟨"/c"⟩).keyText ⟨"/"⟩ := by
  decide +kernel

end RootPair

/-! ## Keys and places -/

theorem Bytes.hexDigit_injective : ∀ first < 16, ∀ second < 16,
    hexDigit first = hexDigit second → first = second := by
  decide

theorem Bytes.hexText_injective {width first second : Nat} (small : first < 16 ^ width)
    (small' : second < 16 ^ width) (same : hexText width first = hexText width second) :
    first = second := by
  induction width generalizing first second with
  | zero => omega
  | succ width ih =>
      have letters := congrArg String.toList same
      rw [hexText, hexText, String.toList_push, String.toList_push] at letters
      obtain ⟨front, last⟩ := List.append_inj' letters rfl
      have last := hexDigit_injective _ (Nat.mod_lt _ (by decide)) _ (Nat.mod_lt _ (by decide))
        (List.singleton_inj.mp last)
      have front := ih (by omega) (by omega) (String.toList_injective front)
      omega

namespace RootPair

variable {first second : RootPair} {directory : Path}

/-- The digest tells the texts behind the keys of two pairs apart. -/
def ToldApart (first second : RootPair) (directory : Path) : Prop :=
  Digest.Xxh3.digest (Text.Utf8.encode (first.keyText directory)) ≠
    Digest.Xxh3.digest (Text.Utf8.encode (second.keyText directory))

instance : Decidable (first.ToldApart second directory) := inferInstanceAs (Decidable (_ ≠ _))

theorem ToldApart.key_ne (apart : first.ToldApart second directory) :
    first.key directory ≠ second.key directory := by
  intro same
  rw [key, key] at same
  exact apart (UInt64.toNat_inj.mp
    (Bytes.hexText_injective (UInt64.toNat_lt _) (UInt64.toNat_lt _) same))

end RootPair

namespace CacheLayout

variable (layout : CacheLayout) (pair : RootPair) (directory : Path)

theorem location_sessionFile : (layout.sessionFile pair directory).location =
    layout.root.location ++ [.name "incremental", .name (pair.key directory ++ "." ++ "bin")] := by
  have stored : IsName (pair.key directory ++ "." ++ "bin") :=
    (pair.isName_key directory).withExtension (by decide)
  have kind : IsName "incremental" := by constructor <;> decide
  rw [sessionFile_eq, Path.location_join _ stored, sessionRoot, Path.location_join _ kind]
  simp

theorem location_stateDirectory : (layout.stateDirectory pair directory).location =
    layout.root.location ++ [.name "filesystem", .name (pair.key directory)] := by
  have kind : IsName "filesystem" := by constructor <;> decide
  rw [stateDirectory, Path.location_join _ (pair.isName_key directory), digestRoot,
    Path.location_join _ kind]
  simp

theorem file_ne {first second : RootPair} {extension extension' : String}
    (whole : '.' ∉ extension.toList) (whole' : '.' ∉ extension'.toList)
    (different : first.key directory ≠ second.key directory ∨ extension ≠ extension') :
    first.key directory ++ "." ++ extension ≠ second.key directory ++ "." ++ extension' := by
  intro same
  have cut := congrArg Path.cutAtDot same
  rw [Path.cutAtDot_append (first.isName_key directory).nonempty whole,
    Path.cutAtDot_append (second.isName_key directory).nonempty whole'] at cut
  obtain ⟨sameKey, sameExtension⟩ := Prod.mk.inj cut
  rcases different with keys | extensions
  · exact keys sameKey
  · exact extensions (Option.some.inj sameExtension)

variable {directory} {first second : RootPair} (apart : first.ToldApart second directory)
include apart

theorem location_sessionFile_ne :
    (layout.sessionFile first directory).location ≠
      (layout.sessionFile second directory).location := by
  have whole : '.' ∉ "bin".toList := by decide
  have files := file_ne directory whole whole (.inl apart.key_ne)
  rw [location_sessionFile, location_sessionFile]
  simpa using files

theorem location_stateDirectory_ne :
    (layout.stateDirectory first directory).location ≠
      (layout.stateDirectory second directory).location := by
  rw [location_stateDirectory, location_stateDirectory]
  simpa using apart.key_ne

end CacheLayout

end AbiBuild
