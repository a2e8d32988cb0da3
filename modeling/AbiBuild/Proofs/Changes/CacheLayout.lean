import AbiBuild.Changes.Detector
import AbiBuild.Proofs.Build.Outputs

/-!
# Where state lies

The session of a pair of roots and its digests lie in different directories below the one of all
state.  A file of state is replaced by way of one that differs from it in the extension alone.
-/

namespace AbiBuild

open Files FileSystem

namespace Files

theorem Path.cutAtDot_append {stem extension : String} (nonempty : stem ≠ "")
    (whole : '.' ∉ extension.toList) :
    cutAtDot (stem ++ "." ++ extension) = (stem, some extension) := by
  have text : (stem ++ "." ++ extension).toList = stem.toList ++ '.' :: extension.toList := by
    simp
  have cut : (Text.pieces '.' (stem ++ "." ++ extension).toList).reverse =
      extension.toList :: (Text.pieces '.' stem.toList).reverse := by
    rw [text, Text.pieces_append, Text.pieces_of_not_mem whole, List.reverse_append]
    rfl
  have joined := Text.joinPieces_pieces '.' stem.toList
  rw [cutAtDot, cut]
  simp [joined, nonempty]

namespace FileSystem

variable {files : FileSystem} {directory : Path}

theorem apart_join (plain : directory.Plain) {first second : String}
    (wholeFirst : '/' ∉ first.toList) (wholeSecond : '/' ∉ second.toList)
    (different : first ≠ second) : Apart files (directory.join first) (directory.join second) := by
  have cons_prefix : ∀ left right : String, left ≠ right →
      ¬files.placeFor directory ++ [left] <+: files.placeFor directory ++ [right] := by
    intro left right apart
    rw [List.prefix_append_right_inj, List.cons_prefix_cons]
    exact fun ⟨same, _⟩ => apart same
  constructor
  · rw [placeFor_join plain wholeFirst, placeFor_join plain wholeSecond]
    exact cons_prefix first second different
  · rw [placeFor_join plain wholeFirst, placeFor_join plain wholeSecond]
    exact cons_prefix second first (Ne.symm different)

theorem ends_replaceFile_join (plain : directory.Plain) {stem : String} (isName : IsName stem)
    (content : Bytes) (files : FileSystem) :
    Ends (replaceFile (directory.join (stem ++ "." ++ "bin")) content) files
      (fun _ next => Touches [directory.join (stem ++ "." ++ "tmp"),
          directory.join (stem ++ "." ++ "bin")] files next ∧
        next.Holds (directory.join (stem ++ "." ++ "bin")) content)
      (fun _ next => Touches [directory.join (stem ++ "." ++ "tmp")] files next) := by
  have stored : IsName (stem ++ "." ++ "bin") := isName.withExtension (by decide)
  have temporary : IsName (stem ++ "." ++ "tmp") := isName.withExtension (by decide)
  have cut : Path.cutAtDot (stem ++ "." ++ "bin") = (stem, some "bin") :=
    Path.cutAtDot_append isName.nonempty (by decide)
  refine ends_replaceFile (plain.join stored) (plain.join temporary) ?_ content files
  rw [plain.withExtension_join stored (by rwa [cut]), cut]

end FileSystem

end Files

/-! ## Keys -/

theorem Bytes.mem_hexText {width value : Nat} {letter : Char}
    (member : letter ∈ (hexText width value).toList) : ∃ digit < 16, letter = hexDigit digit := by
  induction width generalizing value with
  | zero => simp [hexText] at member
  | succ width ih =>
      rw [hexText, String.toList_push, List.mem_append, List.mem_singleton] at member
      rcases member with earlier | rfl
      · exact ih earlier
      · exact ⟨_, Nat.mod_lt _ (by decide), rfl⟩

theorem Bytes.length_hexText (width value : Nat) : (hexText width value).toList.length = width := by
  induction width generalizing value with
  | zero => rfl
  | succ width ih => simp [hexText, ih]

theorem Bytes.isName_hexText {width : Nat} (wide : 2 < width) (value : Nat) :
    IsName (hexText width value) := by
  have length := length_hexText width value
  refine ⟨?_, ?_, ?_, ?_⟩
  · intro empty
    rw [empty] at length
    simp at length
    omega
  · intro current
    rw [current] at length
    simp at length
    omega
  · intro parent
    rw [parent] at length
    simp at length
    omega
  · intro slash
    obtain ⟨digit, small, same⟩ := mem_hexText slash
    revert digit
    decide

theorem RootPair.isName_key (pair : RootPair) (directory : Path) : IsName (pair.key directory) := by
  rw [key]
  exact Bytes.isName_hexText (by decide) _

namespace CacheLayout

def sessionRoot (layout : CacheLayout) : Path := layout.root.join "incremental"

/-- The directory of the digests of a pair. -/
def stateDirectory (layout : CacheLayout) (pair : RootPair) (directory : Path) : Path :=
  layout.digestRoot.join (pair.key directory)

variable {layout : CacheLayout} {files : FileSystem}

theorem below_digestRoot (plain : layout.root.Plain) : Below layout.root layout.digestRoot :=
  (Below.refl plain).join (by constructor <;> decide)

theorem below_sessionRoot (plain : layout.root.Plain) : Below layout.root layout.sessionRoot :=
  (Below.refl plain).join (by constructor <;> decide)

theorem apart_sessionRoot (plain : layout.root.Plain) :
    Apart files layout.sessionRoot layout.digestRoot :=
  apart_join plain (by decide) (by decide) (by decide)

theorem sessionFile_eq (layout : CacheLayout) (pair : RootPair) (directory : Path) :
    layout.sessionFile pair directory =
      layout.sessionRoot.join (pair.key directory ++ "." ++ "bin") := by
  rw [sessionFile, sessionRoot, String.append_assoc]
  rfl

theorem below_sessionFile (plain : layout.root.Plain) (pair : RootPair) (directory : Path) :
    Below layout.sessionRoot (layout.sessionFile pair directory) := by
  rw [sessionFile_eq]
  exact (Below.refl (below_sessionRoot plain).plain).join
    ((pair.isName_key directory).withExtension (by decide))

theorem below_stateDirectory (plain : layout.root.Plain) (pair : RootPair) (directory : Path) :
    Below layout.digestRoot (layout.stateDirectory pair directory) :=
  (Below.refl (below_digestRoot plain).plain).join (pair.isName_key directory)

end CacheLayout

end AbiBuild
