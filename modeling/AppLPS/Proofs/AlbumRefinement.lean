/-
Module: AppLPS.Proofs.AlbumRefinement
Purpose: The devices and the two stores together are an album: when no key is
  used twice, replaying the changes that the backend has granted gives exactly
  the pictures that are stored, whatever else was refused, lost or reordered,
  and a refresh that runs alone lists that album.
Trusted boundary: none
Main exports: Backend.album, Backend.change, World.changes,
  World.album_replayed, Backend.mem_listing, World.refresh_lists_album
-/
import AppLPS.Album
import AppLPS.Machine.Simulation
import AppLPS.Proofs.FreshKeys
import AppLPS.Proofs.RefreshAlone

namespace AppLPS

/-! ## The album in the stores -/

/-- The picture that a document and the bytes under its id make. -/
def pictureOf (fields : Fields) (bytes : Data) :
    Option (Picture String String Data) :=
  match fields.lookup "email", fields.lookup "name" with
  | some (.string email), some (.string name) =>
      some { owner := email, name := name, content := bytes }
  | _, _ => none

theorem pictureOf_eq_some {fields : Fields} {bytes : Data}
    {picture : Picture String String Data} :
    pictureOf fields bytes = some picture ↔
      fields.lookup "email" = some (.string picture.owner) ∧
        fields.lookup "name" = some (.string picture.name) ∧
        picture.content = bytes := by
  constructor
  · intro isPicture
    unfold pictureOf at isPicture
    split at isPicture
    · rename_i owned named
      cases isPicture
      exact ⟨owned, named, rfl⟩
    · cases isPicture
  · intro isPicture
    obtain ⟨owned, named, rfl⟩ := isPicture
    simp only [pictureOf, owned, named]

namespace Backend

/-- The pictures with a document and a blob. -/
def album (backend : Backend) : Album String String String Data :=
  fun documentID =>
    (backend.files.lookup documentID).bind fun fields =>
      (backend.images.lookup (imagePath documentID)).bind (pictureOf fields)

theorem album_eq_some {backend : Backend} {documentID : String}
    {picture : Picture String String Data} :
    backend.album documentID = some picture ↔
      ∃ fields bytes, backend.files.lookup documentID = some fields ∧
        backend.images.lookup (imagePath documentID) = some bytes ∧
        pictureOf fields bytes = some picture := by
  simp only [album, Option.bind_eq_some_iff]
  constructor
  · intro stored
    obtain ⟨fields, isDocument, bytes, isBlob, isPicture⟩ := stored
    exact ⟨fields, bytes, isDocument, isBlob, isPicture⟩
  · intro stored
    obtain ⟨fields, bytes, isDocument, isBlob, isPicture⟩ := stored
    exact ⟨fields, isDocument, bytes, isBlob, isPicture⟩

/-- The change of the album that granting a request makes, read off the stores:
a document that is written adds its picture if the album has none under its
name, be it the document of an upload or an edit that comes after the delete of
its picture, and else renames it; a picture goes with its document or with its
blob, whichever is deleted first. -/
def change (backend : Backend) :
    Request → Option (Album.Change String String String Data)
  | .setData documentPath fields _ =>
      let documentID := Firestore.documentName documentPath
      ((backend.images.lookup (imagePath documentID)).bind
        (pictureOf fields)).map fun picture =>
          if (backend.album documentID).isSome then
            .rename documentID picture.name
          else .add documentID picture
  | .deleteDocument userImage =>
      let documentID := Firestore.documentName userImage.date
      if (backend.album documentID).isSome then some (.remove documentID)
      else none
  | .deleteObject item =>
      (backend.files.keys.find? fun documentID =>
        imagePath documentID = item.fullPath ∧
          (backend.album documentID).isSome = true).map .remove
  | _ => none

end Backend

namespace World

/-- The changes of the album that a step of the world makes. -/
def changes {Client : Type} (observed : World Client × History Client) :
    Event Client → List (Album.Change String String String Data)
  | .serve client (ticket, .granted _) =>
      (((observed.1.clients client).pending.find? ticket).bind fun call =>
        observed.1.server.change call.request).toList
  | _ => []

end World

/-! ## One request -/

namespace Backend

open Album (machine next_add next_rename next_remove)

variable {backend : Backend}

private theorem exec_none {album after : Album String String String Data}
    (same : after = album) :
    machine.exec album
        ((none : Option (Album.Change String String String Data)).toList) =
      some after := by
  rw [same]
  rfl

private theorem exec_some {album after : Album String String String Data}
    {change : Album.Change String String String Data}
    (taken : machine.next album change = some after) :
    machine.exec album (some change).toList = some after := by
  rw [Option.toList_some, Machine.exec_cons, taken]
  rfl

/-- Writing a document changes its own key. -/
theorem album_set {documentID : String} {fields : Fields} :
    ({ backend with
      files := backend.files.insert documentID fields } : Backend).album =
      Function.update backend.album documentID
        ((backend.images.lookup (imagePath documentID)).bind
          (pictureOf fields)) := by
  funext other
  by_cases same : other = documentID
  · subst same
    simp only [album, AList.lookup_insert, Option.bind_some,
      Function.update_self]
  · rw [Function.update_of_ne same]
    simp only [album, AList.lookup_insert_ne same]

theorem album_deleteDocument {documentID : String} :
    ({ backend with files := backend.files.erase documentID } : Backend).album =
      Function.update backend.album documentID none := by
  funext other
  by_cases same : other = documentID
  · subst same
    simp only [album, AList.lookup_erase, Option.bind_none,
      Function.update_self]
  · rw [Function.update_of_ne same]
    simp only [album, AList.lookup_erase_ne same]

theorem album_deleteObject_missing {path : String}
    (gone : path ∉ backend.images) :
    ({ backend with images := backend.images.erase path } : Backend).album =
      backend.album := by
  funext other
  by_cases same : imagePath other = path
  · subst same
    simp only [album, AList.lookup_erase, AList.lookup_eq_none.mpr gone]
  · simp only [album, AList.lookup_erase_ne same]

/-- Writing a record of the owner of a key adds its picture or renames it. -/
theorem exec_set {documentPath documentID : String} {fields : Fields}
    {owner : String} {completion : Option String}
    (isName : documentID = Firestore.documentName documentPath)
    (owned : fields.lookup "email" = some (.string owner))
    (named : ∃ name, fields.lookup "name" = some (.string name))
    (sameOwner : ∀ stored, backend.files.lookup documentID = some stored →
      stored.lookup "email" = some (.string owner)) :
    machine.exec backend.album
        (backend.change (.setData documentPath fields completion)).toList =
      some ({ backend with
        files := backend.files.insert documentID fields } : Backend).album := by
  subst isName
  obtain ⟨name, named⟩ := named
  rw [album_set]
  cases isBlob : backend.images.lookup
      (imagePath (Firestore.documentName documentPath)) with
  | none =>
      simp only [change, isBlob, Option.bind_none, Option.map_none]
      apply exec_none
      have absent :
          backend.album (Firestore.documentName documentPath) = none := by
        simp [album, isBlob]
      rw [← absent, Function.update_eq_self]
  | some bytes =>
      have isPicture : pictureOf fields bytes =
          some { owner := owner, name := name, content := bytes } :=
        pictureOf_eq_some.mpr ⟨owned, named, rfl⟩
      simp only [change, isBlob, Option.bind_some, isPicture, Option.map_some]
      cases before :
          backend.album (Firestore.documentName documentPath) with
      | none => exact exec_some (next_add before)
      | some old =>
          apply exec_some
          rw [Option.isSome_some, if_pos rfl, next_rename before]
          obtain ⟨stored, storedBytes, isDocument, isStored, isOld⟩ :=
            album_eq_some.mp before
          obtain ⟨oldOwner, _, content⟩ := pictureOf_eq_some.mp isOld
          have ownerEq : old.owner = owner := by
            simpa using oldOwner.symm.trans (sameOwner stored isDocument)
          cases isStored.symm.trans isBlob
          rw [ownerEq, content]

/-- Deleting a document removes its picture, if there is one. -/
theorem exec_deleteDocument (userImage : UserImage) :
    machine.exec backend.album
        (backend.change (.deleteDocument userImage)).toList =
      some ({ backend with
        files := backend.files.erase
          (Firestore.documentName userImage.date) } : Backend).album := by
  rw [album_deleteDocument]
  cases before :
      backend.album (Firestore.documentName userImage.date) with
  | none =>
      simp only [change, before, Option.isSome_none, Bool.false_eq_true,
        if_false]
      apply exec_none
      rw [← before, Function.update_eq_self]
  | some picture =>
      simp only [change, before, Option.isSome_some, if_true]
      exact exec_some (next_remove before)

section Segments

variable (segments : ∀ documentID ∈ backend.files, IsSegment documentID)

include segments

/-- A change of the blob of one segment is not seen under another. -/
private theorem album_of_ne {documentID other : String} {images : Bucket}
    (segment : IsSegment other) (ne : documentID ≠ other)
    (same : ∀ path, path ≠ imagePath other →
      images.lookup path = backend.images.lookup path) :
    ({ backend with images := images } : Backend).album documentID =
      backend.album documentID := by
  cases isDocument : backend.files.lookup documentID with
  | none => simp only [album, isDocument, Option.bind_none]
  | some fields =>
      have stored : documentID ∈ backend.files := by
        rw [← AList.lookup_isSome, isDocument]
        rfl
      have path : imagePath documentID ≠ imagePath other :=
        mt (imagePath_inj (segments documentID stored) segment).mp ne
      simp only [album, same _ path]

/-- Storing the blob of a key without a document adds nothing yet. -/
theorem album_put {fecha : String} {data : Data} (segment : IsSegment fecha)
    (noDocument : fecha ∉ backend.files) :
    ({ backend with
      images := backend.images.insert (imagePath fecha) data } : Backend).album =
      backend.album := by
  funext documentID
  by_cases same : documentID = fecha
  · subst same
    have absent := AList.lookup_eq_none.mpr noDocument
    simp only [album, absent, Option.bind_none]
  · exact album_of_ne segments segment same fun _ =>
      AList.lookup_insert_ne

theorem album_deleteObject {documentID : String}
    (segment : IsSegment documentID) :
    ({ backend with
      images := backend.images.erase (imagePath documentID) } : Backend).album =
      Function.update backend.album documentID none := by
  funext other
  by_cases same : other = documentID
  · subst same
    simp [album]
  · rw [Function.update_of_ne same]
    exact album_of_ne segments segment same fun _ => AList.lookup_erase_ne

/-- Deleting a blob removes the picture that it belongs to, if there is one:
the document of a delete that has failed is left without its blob. -/
theorem exec_deleteObject (item : StorageReference) :
    machine.exec backend.album (backend.change (.deleteObject item)).toList =
      some ({ backend with images := backend.images.erase item.fullPath } :
        Backend).album := by
  cases picked : backend.files.keys.find? fun documentID =>
      imagePath documentID = item.fullPath ∧
        (backend.album documentID).isSome = true with
  | none =>
      simp only [change, picked, Option.map_none]
      apply exec_none
      funext documentID
      by_cases same : imagePath documentID = item.fullPath
      · cases before : backend.album documentID with
        | none =>
            rw [← same]
            simp only [album, AList.lookup_erase, Option.bind_none,
              Option.bind_fun_none]
        | some picture =>
            obtain ⟨fields, _, isDocument, _⟩ := album_eq_some.mp before
            have isKey : documentID ∈ backend.files.keys := by
              rw [← AList.mem_keys, ← AList.lookup_isSome, isDocument]
              rfl
            have notPicked := List.find?_eq_none.mp picked documentID isKey
            simp [before, same] at notPicked
      · simp only [album, AList.lookup_erase_ne same]
  | some documentID =>
      have found := List.find?_some picked
      simp only [decide_eq_true_eq] at found
      obtain ⟨same, isSome⟩ := found
      obtain ⟨picture, present⟩ := Option.isSome_iff_exists.mp isSome
      have stored := AList.mem_keys.mpr (List.mem_of_find?_eq_some picked)
      simp only [change, picked, Option.map_some]
      rw [← same, album_deleteObject segments (segments documentID stored)]
      exact exec_some (next_remove present)

end Segments

end Backend

/-! ## Steps and runs -/

namespace World

variable {Client : Type} [DecidableEq Client]

omit [DecidableEq Client] in
/-- One granted request is its change of the album. -/
private theorem exec_change {observed : World Client × History Client}
    (keys : KeysInvariant observed) (distinct : DistinctKeys observed)
    {client : Client} {ticket visible : Nat} {call : Call} {backend : Backend}
    {response : Response}
    (found : (observed.1.clients client).pending.find? ticket = some call)
    (unanswered : call.answer = none)
    (serves : observed.1.server.Serves
      (unservedWrites (observed.1.clients client).pending.values) call.request
      (.granted visible) backend response) :
    Album.machine.exec observed.1.server.album
      (observed.1.server.change call.request).toList = some backend.album := by
  have sound := ((keys.records.calls client).of_find? found).request
  have segments : ∀ documentID ∈ observed.1.server.files,
      IsSegment documentID := by
    intro documentID stored
    obtain ⟨fields, isDocument⟩ := Option.isSome_iff_exists.mp
      (AList.lookup_isSome.mpr stored)
    exact (keys.records.files documentID fields isDocument).isSegment
  generalize requestEq : call.request = request at serves sound ⊢
  cases serves with
  | documents => rfl
  | data => rfl
  | dataFailed => rfl
  | put =>
      rename_i correoUsuario nombre fecha data
      obtain ⟨rfl, owned⟩ := sound
      rw [Backend.album_put segments owned.isSegment]
      · rfl
      · intro stored
        apply (keys.files fecha stored).arrived client
        apply List.mem_filterMap.mpr
        exact ⟨call, Pool.mem_values_of_find? found,
          Call.sending?_eq_some.mpr
            ⟨unanswered, _, _, correoUsuario, nombre, requestEq⟩⟩
  | set =>
      rename_i documentPath fields completion
      obtain ⟨owner, owned, ofKey⟩ := sound.owner
      apply Backend.exec_set rfl owned sound.name
      intro stored isDocument
      rw [Firestore.documentName_eq ofKey.isSegment] at isDocument
      obtain ⟨other, otherOwned, otherOfKey⟩ :=
        (keys.records.files documentPath stored isDocument).owner
      rw [otherOwned, owner_unique distinct otherOfKey ofKey]
  | deleteDocument =>
      rename_i userImage
      exact Backend.exec_deleteDocument userImage
  | deleteObject =>
      rename_i item isStored
      exact Backend.exec_deleteObject segments item
  | deleteObjectFailed gone =>
      rename_i item description
      rw [Backend.exec_deleteObject segments item,
        Backend.album_deleteObject_missing gone]

/-- The world refines the album in all runs that use no key twice. -/
theorem replays_album :
    (World.observed : Machine (World Client × History Client) _ _).Replays
      Album.machine (fun observed => observed.1.server.album) changes
      KeysInvariant
      (fun observed event => ∀ after,
        World.observed.next observed event = some after →
          DistinctKeys after) where
  preserved := fun _ _ after keys distinct taken =>
    keys.next taken (distinct after taken)
  simulates := by
    intro observed event after keys distinct taken
    have before := (distinct after taken).before taken
    obtain ⟨reached, stepped, rfl⟩ := Machine.exists_of_observe_next taken
    cases acts_of_next stepped with
    | act => rfl
    | serve found unanswered accepts serves deviceEq =>
        rename_i client ticket verdict call backend response device
        cases verdict with
        | refused description =>
            rw [Network.moved_server, serves.eq_of_harmless (.inr rfl)]
            rfl
        | granted visible =>
            simp only [changes, found, Option.bind_some, Network.moved_server]
            exact exec_change keys before found unanswered serves

/-- The world with the log of the changes of its album. -/
def albumLog : Machine ((World Client × History Client) ×
    List (Album.Change String String String Data)) (Event Client) Trap :=
  World.observed.logged changes

/-- The invariant and the replay at the end of a run that uses no key twice. -/
private theorem replayed_of_exec (persisted : Client → Option FIRUser)
    (images : Bucket) {events : List (Event Client)}
    {after : (World Client × History Client) ×
      List (Album.Change String String String Data)}
    (run : albumLog.exec ((start persisted images, {}), []) events = some after)
    (distinct : DistinctKeys after.1) :
    Album.machine.exec Album.empty after.2 = some after.1.1.server.album ∧
      KeysInvariant after.1 := by
  have startEmpty :
      (start persisted images).server.album = Album.empty := by
    funext documentID
    simp [World.start, Backend.album, Album.empty]
  have guarded : albumLog.Guarded
      (fun before event => ∀ after,
        World.observed.next before.1 event = some after → DistinctKeys after)
      ((start persisted images, {}), []) events := by
    have backward : ∀ before (event : Event Client) after,
        albumLog.next before event = some after →
        DistinctKeys after.1 → DistinctKeys before.1 :=
      fun _ _ _ taken distinctAfter =>
        distinctAfter.before (Machine.logged_next_eq_some.mp taken).1
    apply (Machine.guarded_of_backward backward run distinct).1.mono
    intro before event distinctNext after taken
    exact distinctNext (after, before.2 ++ changes before.1 event)
      (Machine.logged_next_eq_some.mpr ⟨taken, rfl⟩)
  constructor
  · rw [← startEmpty]
    exact replays_album.exec_log (KeysInvariant.start persisted images) guarded
      run
  · have always : albumLog.Always (fun observed => KeysInvariant observed.1)
        ((start persisted images, {}), []) events :=
      Machine.always_of_guarded
        (fun before event after keys distinct taken =>
          keys.next (Machine.logged_next_eq_some.mp taken).1
            (distinct after.1 (Machine.logged_next_eq_some.mp taken).1))
        (KeysInvariant.start persisted images) guarded
    exact always.last run

/-- In every run in which no key is used twice, whatever requests are refused
and in whatever order everything runs: replaying the granted changes on an
empty album gives exactly the pictures that are stored, and each of them was
added with its owner and its bytes, has not been removed since, and has the name
it was added with or was given since. -/
theorem album_replayed (persisted : Client → Option FIRUser) (images : Bucket)
    {events : List (Event Client)}
    {after : (World Client × History Client) ×
      List (Album.Change String String String Data)}
    (run : albumLog.exec ((start persisted images, {}), []) events = some after)
    (distinct : DistinctKeys after.1) :
    Album.machine.exec Album.empty after.2 = some after.1.1.server.album ∧
      ∀ documentID picture,
        after.1.1.server.album documentID = some picture →
        ∃ before added later,
          after.2 = before ++ .add documentID added :: later ∧
          .remove documentID ∉ later ∧ added.owner = picture.owner ∧
          added.content = picture.content ∧
          (added.name = picture.name ∨
            .rename documentID picture.name ∈ later) := by
  have replayed := (replayed_of_exec persisted images run distinct).1
  exact ⟨replayed, fun _ _ present =>
    Album.exists_added_of_exec replayed present⟩

/-- A picture is uploaded and renamed, and while a second one is uploaded the
first is deleted: its document at once, its blob never. -/
def changesAlbum : List (Event Unit) :=
  arrives () "A" "ana@lps.es" ++ uploads () 0 "playa" [2] noon ++
    refreshes () 1 2 ++
    [.act () .render, .act () (.openEdit 0), .act () (.saveEdit "mar"),
      .act () (.onDelete (.first 1)),
      .act () (.save ⟨some [3], some [3]⟩ "sol" afterNoon)] ++
    completes () 4 ++ completes () 6 ++ completes () 7 ++
    [.serve () (5, .granted 0), .act () (.callback 5),
      .serve () (8, .refused "denied")]

/-- `album_replayed` at these changes. -/
theorem album_replayed_renamed :
    ∃ after,
      albumLog.exec ((start (fun _ : Unit => none) ∅, {}), []) changesAlbum =
        some after ∧
      after.2 =
        [.add "2021-11-09 12:00:00" ⟨"ana@lps.es", "playa", [2]⟩,
          .rename "2021-11-09 12:00:00" "mar",
          .add "2021-11-09 12:00:01" ⟨"ana@lps.es", "sol", [3]⟩,
          .remove "2021-11-09 12:00:00"] ∧
      Album.machine.exec Album.empty after.2 = some after.1.1.server.album := by
  have ends :
      (albumLog.exec ((start (fun _ : Unit => none) ∅, {}), [])
        changesAlbum).map (fun after =>
          (after.2, after.1.2.uploads.map (·.fecha))) =
        some
          ([.add "2021-11-09 12:00:00" ⟨"ana@lps.es", "playa", [2]⟩,
            .rename "2021-11-09 12:00:00" "mar",
            .add "2021-11-09 12:00:01" ⟨"ana@lps.es", "sol", [3]⟩,
            .remove "2021-11-09 12:00:00"],
            ["2021-11-09 12:00:00", "2021-11-09 12:00:01"]) := by
    decide +kernel
  obtain ⟨after, run, shown⟩ := Option.map_eq_some_iff.mp ends
  obtain ⟨log, keys⟩ := Prod.mk.inj shown
  have distinct : DistinctKeys after.1 := by
    rw [DistinctKeys, keys]
    decide
  exact ⟨after, run, log, (album_replayed _ _ run distinct).1⟩

end World

/-! ## The list of an account -/

namespace Backend

variable {backend : Backend} {uploads : List Upload}
  (records : ∀ documentID fields,
    backend.files.lookup documentID = some fields →
    IsRecord uploads documentID fields)
include records

/-- The row of a stored document is the picture under its id. -/
theorem picture_eq_some {document : QueryDocumentSnapshot}
    (stored : backend.files.lookup document.documentID = some document.data)
    {row : UserImage} :
    backend.picture document = some row ↔
      row.date = document.documentID ∧ row.data.length ≤ maxSize ∧
        backend.album row.date = some ⟨row.email, row.name, row.data⟩ := by
  have dated := (records _ _ stored).date
  constructor
  · intro isPicture
    obtain ⟨bytes, isBlob, isRow⟩ := Option.bind_eq_some_iff.mp isPicture
    rw [Fields.interpolated_of_string dated] at isBlob
    split at isRow
    · rename_i fits
      obtain ⟨describes, rfl⟩ := rowOf_eq_some.mp isRow
      have sameKey : row.date = document.documentID := by
        simpa using describes.date.symm.trans dated
      refine ⟨sameKey, fits, album_eq_some.mpr ⟨document.data, row.data, ?_, ?_,
        pictureOf_eq_some.mpr ⟨describes.email, describes.name, rfl⟩⟩⟩
      · rw [sameKey]
        exact stored
      · rw [sameKey]
        exact isBlob
    · cases isRow
  · intro inAlbum
    obtain ⟨sameKey, fits, present⟩ := inAlbum
    obtain ⟨fields, bytes, isDocument, isBlob, isPicture⟩ :=
      album_eq_some.mp present
    obtain ⟨owned, named, rfl⟩ := pictureOf_eq_some.mp isPicture
    rw [sameKey] at isDocument isBlob
    cases stored.symm.trans isDocument
    rw [← sameKey] at dated
    apply Option.bind_eq_some_iff.mpr
    refine ⟨row.data, ?_, ?_⟩
    · rw [Fields.interpolated_of_string dated, sameKey]
      exact isBlob
    · rw [if_pos fits]
      exact rowOf_eq_some.mpr ⟨⟨named, dated, owned⟩, rfl⟩

/-- The listing of an account is the part of the album that it owns and that
can be downloaded. -/
theorem mem_listing {correoUsuario : String} {row : UserImage} :
    row ∈ backend.listing correoUsuario (fun _ => true) ↔
      backend.album row.date = some ⟨correoUsuario, row.name, row.data⟩ ∧
        row.email = correoUsuario ∧ row.data.length ≤ maxSize := by
  simp only [listing, List.filter_true, List.mem_filterMap]
  constructor
  · intro listed
    obtain ⟨document, own, isPicture⟩ := listed
    obtain ⟨isStored, isOwn⟩ := List.mem_filter.mp own
    have stored := (mem_snapshotOf.mp isStored).1
    obtain ⟨sameKey, fits, present⟩ :=
      (picture_eq_some records stored).mp isPicture
    obtain ⟨fields, _, isDocument, _, isPictureOf⟩ := album_eq_some.mp present
    have owned := (pictureOf_eq_some.mp isPictureOf).1
    rw [sameKey] at isDocument
    cases stored.symm.trans isDocument
    have email : row.email = correoUsuario := by
      simpa [owned] using isOwn
    rw [← email]
    exact ⟨present, rfl, fits⟩
  · intro inAlbum
    obtain ⟨present, rfl, fits⟩ := inAlbum
    obtain ⟨fields, _, isDocument, _, isPictureOf⟩ := album_eq_some.mp present
    have owned := (pictureOf_eq_some.mp isPictureOf).1
    refine ⟨⟨row.date, fields⟩, List.mem_filter.mpr ⟨?_, ?_⟩,
      (picture_eq_some records isDocument).mpr ⟨rfl, fits, present⟩⟩
    · exact mem_snapshotOf.mpr
        ⟨isDocument, (records _ _ isDocument).isSegment.plain⟩
    · simp [owned]

/-- No key is listed twice. -/
theorem nodup_listing (correoUsuario : String)
    (succeeds : QueryDocumentSnapshot → Bool) :
    ((backend.listing correoUsuario succeeds).map (·.date)).Nodup := by
  have distinct : (snapshotOf backend.files).Pairwise
      fun one two => one.documentID ≠ two.documentID :=
    List.pairwise_map.mp (nodup_documentIDs backend.files)
  have chosen : (((backend.documentsOf correoUsuario).filter succeeds)).Sublist
      (snapshotOf backend.files) :=
    List.filter_sublist.trans List.filter_sublist
  rw [listing, List.Nodup, List.pairwise_map, List.pairwise_filterMap]
  apply (distinct.sublist chosen).imp_of_mem
  intro one two isOne isTwo ne rowOne pictureOne rowTwo pictureTwo
  have storedOne := (mem_snapshotOf.mp (chosen.subset isOne)).1
  have storedTwo := (mem_snapshotOf.mp (chosen.subset isTwo)).1
  rw [((picture_eq_some records storedOne).mp pictureOne).1,
    ((picture_eq_some records storedTwo).mp pictureTwo).1]
  exact ne

end Backend

namespace World

variable {Client : Type} [DecidableEq Client]

/-- After every run in which no key is used twice, a refresh whose requests are
all granted and that runs alone ends with exactly the pictures of the replayed
album that its account owns and that a download can hold, each once. -/
theorem refresh_lists_album (persisted : Client → Option FIRUser)
    (images : Bucket) {events later : List (Event Client)}
    {reached : (World Client × History Client) ×
      List (Album.Change String String String Data)}
    {client : Client} {ticket : Nat} {correoUsuario : String}
    {started refreshed : World Client}
    (run : albumLog.exec ((start persisted images, {}), []) events =
      some reached)
    (distinct : DistinctKeys reached.1)
    (nothing : (reached.1.1.clients client).pending.values = [])
    (account : (reached.1.1.clients client).accountOf ticket =
      some correoUsuario)
    (begins : machine.next reached.1.1 (.act client (.runTask ticket)) =
      some started)
    (alone : machine.Guarded (RefreshStep client fun _ => true) started later)
    (ran : machine.exec started later = some refreshed)
    (ended : (refreshed.clients client).pending.values = []) :
    ∃ album, Album.machine.exec Album.empty reached.2 = some album ∧
      ((refreshed.clients client).controller.refImagenesUsuario.map
        (·.date)).Nodup ∧
      ∀ row,
        row ∈ (refreshed.clients client).controller.refImagenesUsuario ↔
          album row.date = some ⟨correoUsuario, row.name, row.data⟩ ∧
            row.email = correoUsuario ∧ row.data.length ≤ maxSize := by
  obtain ⟨replayed, keys⟩ :=
    replayed_of_exec persisted images run distinct
  have records := keys.records.files
  have strings : ∀ document ∈ snapshotOf reached.1.1.server.files,
      HasStrings document := by
    intro document member key isKey
    have isRecord := records _ _ (mem_snapshotOf.mp member).1
    obtain ⟨email, owned, _⟩ := isRecord.owner
    simp only [List.mem_cons, List.not_mem_nil, or_false] at isKey
    rcases isKey with rfl | rfl | rfl
    · exact isRecord.name
    · exact ⟨_, isRecord.date⟩
    · exact ⟨email, owned⟩
  have shown := ((refreshRuns_of_guarded nothing strings account begins
    alone).last ran).phase.lists.wholly ended
  refine ⟨_, replayed, ?_, ?_⟩
  · exact (shown.map (·.date)).nodup_iff.mpr
      (Backend.nodup_listing records _ _)
  · intro row
    rw [shown.mem_iff]
    exact Backend.mem_listing records

/-- `refresh_lists_album` at the album of one picture. -/
theorem refresh_lists_album_uploaded :
    ∃ reached started refreshed album,
      albumLog.exec ((start (fun _ : Unit => none) ∅, {}), [])
        (arrives () "A" "ana@lps.es" ++ uploads () 0 "playa" [2] noon) =
          some reached ∧
      machine.next reached.1.1 (.act () (.runTask 1)) = some started ∧
      machine.exec started (completes () 2 ++ completes () 3) =
        some refreshed ∧
      Album.machine.exec Album.empty reached.2 = some album ∧
      ∀ row, row ∈ (refreshed.clients ()).controller.refImagenesUsuario ↔
        album row.date = some ⟨"ana@lps.es", row.name, row.data⟩ ∧
          row.email = "ana@lps.es" ∧ row.data.length ≤ maxSize := by
  have ends :
      (albumLog.exec ((start (fun _ : Unit => none) ∅, {}), [])
        (arrives () "A" "ana@lps.es" ++ uploads () 0 "playa" [2] noon)).bind
          (fun reached =>
            (machine.next reached.1.1 (.act () (.runTask 1))).bind fun started =>
              (machine.exec started (completes () 2 ++ completes () 3)).map
                fun refreshed =>
                  (reached.1.2.uploads.map (·.fecha),
                    (reached.1.1.clients ()).pending.values.length,
                    (reached.1.1.clients ()).accountOf 1,
                    decide (machine.Guarded (RefreshStep () fun _ => true)
                      started (completes () 2 ++ completes () 3)),
                    (refreshed.clients ()).pending.values.length)) =
        some (["2021-11-09 12:00:00"], 0, some "ana@lps.es", true, 0) := by
    decide +kernel
  obtain ⟨reached, run, rest⟩ := Option.bind_eq_some_iff.mp ends
  obtain ⟨started, begins, rest⟩ := Option.bind_eq_some_iff.mp rest
  obtain ⟨refreshed, ran, shown⟩ := Option.map_eq_some_iff.mp rest
  simp only [Prod.mk.injEq] at shown
  obtain ⟨keys, nothing, account, alone, ended⟩ := shown
  have distinct : DistinctKeys reached.1 := by
    rw [DistinctKeys, keys]
    exact List.nodup_singleton _
  obtain ⟨album, replayed, _, listed⟩ := refresh_lists_album _ _ run distinct
    (List.eq_nil_of_length_eq_zero nothing) account begins
    (of_decide_eq_true alone) ran (List.eq_nil_of_length_eq_zero ended)
  exact ⟨reached, started, refreshed, album, run, begins, ran, replayed, listed⟩

end World

end AppLPS
