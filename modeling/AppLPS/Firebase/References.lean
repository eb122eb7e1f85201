/-
Module: AppLPS.Firebase.References
Purpose: The paths that the app hands to Firebase and what they name: objects
  of the bucket, after the vendored `FIRStoragePath`, and documents below a
  collection, after the vendored `ResourcePath` and `DocumentReference`.
Trusted boundary: none
Main exports: IsSegment, StorageReference, imageReference, imagePath,
  Firestore.document, Firestore.documentName
-/
import AppLPS.Models
import AppLPS.Text.Components
import Mathlib.Data.List.Infix

namespace AppLPS

/-- The text is one segment of a path. -/
structure IsSegment (text : String) : Prop where
  ne_nil : text.toList ≠ []
  plain : '/' ∉ text.toList

instance IsSegment.decidable (text : String) : Decidable (IsSegment text) :=
  decidable_of_iff (text.toList ≠ [] ∧ '/' ∉ text.toList)
    ⟨fun both => ⟨both.1, both.2⟩, fun segment => ⟨segment.1, segment.2⟩⟩

/-- A formatted time is one segment. -/
theorem DateFormatter.isSegment_string (now : WallClock) :
    IsSegment (DateFormatter.string now) where
  ne_nil := by
    rw [DateFormatter.string, String.toList_ofList, DateFormatter.characters]
    simp
  plain := by
    have digits := @Decimal.not_mem_padded '/' rfl
    rw [DateFormatter.string, String.toList_ofList, DateFormatter.characters]
    simp [digits]

/-! ## Storage -/

/-- `standardizedPathForString:` removes leading and trailing slashes and
compresses multiple ones. -/
def FIRStoragePath.standardizedPathForString (string : String) : String :=
  .ofList (Components.standardized '/' string.toList)

/-- A reference below the root of the bucket, with the path that `child` was
called with. -/
structure StorageReference where
  child : String
deriving DecidableEq, Repr

/-- The path of the object. -/
def StorageReference.fullPath (reference : StorageReference) : String :=
  FIRStoragePath.standardizedPathForString reference.child

/-- `storageRef.child("images/\(date)")`. -/
def imageReference (date : String) : StorageReference where
  child := "images/" ++ date

/-- The path at which the bytes of an image are stored. -/
def imagePath (date : String) : String := (imageReference date).fullPath

theorem imageReference_injective : Function.Injective imageReference := by
  intro first second same
  have sameChild : "images/" ++ first = "images/" ++ second :=
    congrArg StorageReference.child same
  exact (String.append_right_inj "images/").mp sameChild

/-- One segment is stored under itself. -/
theorem imagePath_eq {date : String} (segment : IsSegment date) :
    imagePath date = "images/" ++ date := by
  have folder : ("images/" ++ date).toList =
      ['i', 'm', 'a', 'g', 'e', 's'] ++ '/' :: date.toList := by
    rw [String.toList_append]
    rfl
  apply String.toList_injective
  rw [imagePath, StorageReference.fullPath,
    FIRStoragePath.standardizedPathForString, String.toList_ofList,
    imageReference, folder]
  exact Components.standardized_append (by decide) (by decide) segment.plain
    segment.ne_nil

/-- Different segments are stored under different paths. -/
theorem imagePath_inj {first second : String} (segment : IsSegment first)
    (other : IsSegment second) :
    imagePath first = imagePath second ↔ first = second := by
  rw [imagePath_eq segment, imagePath_eq other]
  exact String.append_right_inj "images/"

example : imagePath "x/" = imagePath "x" := by decide

/-! ## Firestore -/

namespace Firestore

/-- `ResourcePath::FromString`, past its check. -/
def segments (path : String) : List String :=
  (Components.components '/' path.toList).map String.ofList

/-- `CanonicalString` of a document's path below its collection. -/
def documentName (documentPath : String) : String :=
  "/".intercalate (segments documentPath)

/-- `document` of a collection with a path of one segment: the name of the
document, unless the path names none. -/
def document (collection documentPath : String) : Except Trap String :=
  if documentPath = "" then
    .error (.invalidArgument "Document path cannot be empty.")
  else if ['/', '/'] <:+: documentPath.toList then
    .error (.invalidArgument
      s!"Invalid path ({documentPath}). Paths must not contain // in them.")
  else
    let path := collection :: segments documentPath
    let canonicalString := "/".intercalate path
    let size := path.length
    if size % 2 ≠ 0 then
      .error (.invalidArgument ("Invalid document reference. Document " ++
        "references must have an even number of segments, but " ++
        s!"{canonicalString} has {size}"))
    else .ok (documentName documentPath)

variable {collection path name : String}

theorem segments_eq (segment : IsSegment path) : segments path = [path] := by
  rw [segments, Components.components_of_not_mem segment.plain segment.ne_nil,
    List.map_singleton, String.ofList_toList]

/-- One segment is the name of a document. -/
@[simp] theorem documentName_eq (segment : IsSegment path) :
    documentName path = path := by
  rw [documentName, segments_eq segment, String.intercalate_singleton]

theorem document_eq (segment : IsSegment path) :
    document collection path = .ok path := by
  have notEmpty : path ≠ "" := by
    rintro rfl
    exact segment.ne_nil rfl
  have notDouble : ¬['/', '/'] <:+: path.toList := by
    intro isInfix
    exact segment.plain (isInfix.subset List.mem_cons_self)
  rw [document, if_neg notEmpty, if_neg notDouble, segments_eq segment,
    documentName_eq segment]
  have even : ¬[collection, path].length % 2 ≠ 0 :=
    not_not_intro (Nat.mod_self 2)
  exact if_neg even

/-- `document` fails in one way only. -/
theorem document_eq_error {trap : Trap}
    (raised : document collection path = .error trap) :
    ∃ message, trap = .invalidArgument message := by
  unfold document at raised
  split at raised
  · cases raised
    exact ⟨_, rfl⟩
  · split at raised
    · cases raised
      exact ⟨_, rfl⟩
    · dsimp only at raised
      split at raised
      · cases raised
        exact ⟨_, rfl⟩
      · cases raised

theorem documentName_of_document
    (isDocument : document collection path = .ok name) :
    documentName path = name := by
  unfold document at isDocument
  split at isDocument
  · cases isDocument
  · split at isDocument
    · cases isDocument
    · dsimp only at isDocument
      split at isDocument
      · cases isDocument
      · exact Except.ok.inj isDocument

example : document "Files" "x/" = document "Files" "x" := by decide

end Firestore

end AppLPS
