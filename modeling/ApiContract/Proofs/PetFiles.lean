import ApiContract.Proofs.PetRequests
import ApiContract.Proofs.TemporaryFiles

/-!
# Files that requests leave behind

**Input:** a server of pets, and requests, between which others may change the disk.

A handler makes at most one file, and its removal is put off before anything can fail.  So when a
request is answered, the disk is as the request found it.

**Results:**

* `Owes`: a disk on which at most one file was made, whose removal is put off;
* `handled_serve`: what a handler leaves, one case for each thing that can become of files;
* `leavesNoFile`, `visits_leave_no_file`: no file outlives the request that made it;
* `run_leaves_no_file`: a run leaves the disk as it was.
-/

namespace ApiContract

/-! ## Files whose removal is put off -/

/-- What was made on a disk since it was `d`, and what is to be done: nothing, or one file, which is
to be removed. -/
inductive Owes (d : Disk) : Workspace → Option (FilePath × Place) → Prop
  | nothing : Owes d { disk := d } none
  | file {path : FilePath} {p : Place} (free : d.Free path p) (content : ByteArray) :
      Owes d ⟨d.put p (.file content), ⟨[.removeFile path]⟩⟩ (some (path, p))

section Owing

variable {d : Disk} {w w' : Workspace} {made : Option (FilePath × Place)}

/-- When what was put off is done, the disk is as it was. -/
theorem Owes.cleanup (h : Owes d w made) : (w.registry.cleanup w.disk).disk = d := by
  cases h with
  | nothing => rfl
  | file free content =>
      simp only [Cleanup.Registry.cleanup, Cleanup.runAll, free.run_removeFile]

/-- Storing a part makes a file and puts off its removal, or fails and leaves everything. -/
theorem store_cases (w : Workspace) (part : Part) :
    (∃ e, MultipartForm.store w part = (w, .error (.io e))) ∨
      ∃ p file, w.disk.Free file.path p ∧
        MultipartForm.store w part =
          (⟨w.disk.put p (.file part.data), w.registry.removeFile file.path⟩, .ok file) := by
  unfold MultipartForm.store
  cases hmake : w.disk.makeTemporary "part-" ".tmp" with
  | error fault => exact Or.inl ⟨_, rfl⟩
  | ok made =>
      obtain ⟨d, path⟩ := made
      obtain ⟨p, hfree, rfl⟩ := Disk.makeTemporary_eq_ok hmake
      have hwrite := hfree.write .empty part.data
      refine Or.inr ⟨p, { name := part.fileName.getD part.name, path
                          contentType := part.contentType.getD MultipartForm.defaultContentType },
        hfree, ?_⟩
      dsimp only
      rw [hwrite]

end Owing

namespace PetStore

/-! ## What handlers make -/

/-- The files that a store remembers: those it received and those it handed out. -/
def Store.files (s : Store) : List FilePath :=
  s.uploads.map (·.path) ++ s.served

/-- What a handler leaves of files, given the store and the disk that it found. -/
inductive Handled (s : Store) (d : Disk) : Served → Prop
  /-- No file was made, and the store has received none and handed out none. -/
  | untouched {x : Served} (owes : Owes d x.workspace none) (uploads : x.store.uploads = s.uploads)
      (served : x.store.served = s.served) : Handled s d x
  /-- One file was made, which the store has received or handed out.  The request is not refused. -/
  | made {x : Served} {path : FilePath} {p : Place} (owes : Owes d x.workspace (some (path, p)))
      (files : ∀ f ∈ x.store.files, f ∈ s.files ∨ f = path)
      (accepted : (Server.responseOf x.result).status ≠ 400) : Handled s d x

section Handlers

variable {s : Store} {d : Disk} {x : Served} {r : Request} {petId : Option String}

/-- Reading a form for an avatar makes a file, or fails and leaves nothing: the text is read before
the file is stored. -/
theorem readAvatarForm_cases (f : MultipartForm) (d : Disk) :
    (∃ e, readAvatarForm f { disk := d } = ({ disk := d }, .error e)) ∨
      ∃ (p : Place) (part : Part) (photo : UploadedFile) (description : String),
        d.Free photo.path p ∧ readAvatarForm f { disk := d } =
          (⟨d.put p (.file part.data), ⟨[.removeFile photo.path]⟩⟩, .ok (photo, description)) := by
  unfold readAvatarForm
  cases f.required "description" Scalar.readText? with
  | error e => exact Or.inl ⟨e, rfl⟩
  | ok description =>
      unfold MultipartForm.requiredFile MultipartForm.optionalFile
      cases f.part? "photo" with
      | none => exact Or.inl ⟨_, rfl⟩
      | some part =>
          rcases store_cases { disk := d } part with ⟨e, he⟩ | ⟨p, photo, hfree, hstore⟩
          · refine Or.inl ⟨.io e, ?_⟩
            simp only [he]
            rfl
          · refine Or.inr ⟨p, part, photo, description, hfree, ?_⟩
            simp only [hstore]
            rfl

/-- Reading the body of a request for an avatar makes a file, or fails and leaves nothing. -/
theorem readAvatar_cases (r : Request) (d : Disk) :
    (∃ e, readAvatar r { disk := d } = ({ disk := d }, .error e)) ∨
      ∃ (p : Place) (part : Part) (photo : UploadedFile) (description : String),
        d.Free photo.path p ∧ readAvatar r { disk := d } =
          (⟨d.put p (.file part.data), ⟨[.removeFile photo.path]⟩⟩, .ok (photo, description)) := by
  unfold readAvatar
  split
  · cases Multipart.parts? r.headers r.body with
    | none => exact Or.inl ⟨_, rfl⟩
    | some parts =>
        rcases readAvatarForm_cases parts d with
          ⟨e, he⟩ | ⟨p, part, photo, description, hfree, hread⟩
        · refine Or.inl ⟨e.refusal, ?_⟩
          simp only [he]
          rfl
        · refine Or.inr ⟨p, part, photo, description, hfree, ?_⟩
          simp only [hread]
          rfl
  · exact Or.inl ⟨_, rfl⟩

theorem handled_putAvatar : Handled s d (putAvatar r petId s { disk := d }) := by
  unfold putAvatar
  split
  · exact .untouched .nothing rfl rfl
  · rename_i petId _
    rcases readAvatar_cases r d with ⟨e, he⟩ | ⟨p, part, photo, description, hfree, hread⟩
    · simp only [he]
      exact .untouched .nothing rfl rfl
    · have hfiles : ∀ bytes, ∀ f ∈ ({ s with uploads := s.uploads ++
            [{ petId, path := photo.path, bytes, description }] } : Store).files,
          f ∈ s.files ∨ f = photo.path := by
        intro bytes f hf
        simp only [Store.files, List.map_append, List.mem_append, List.map_cons, List.map_nil,
          List.mem_singleton] at hf ⊢
        tauto
      have hreceive : s.receive (d.put p (.file part.data)) petId photo description =
          ({ s with uploads := s.uploads ++
              [{ petId, path := photo.path, bytes := part.data, description }] },
            if description = "fail" then .error { message := "avatar storage failed" }
            else .ok ()) := by
        unfold Store.receive
        rw [hfree.read]
      simp only [hread, hreceive]
      by_cases hfail : description = "fail"
      · rw [if_pos hfail]
        exact .made (.file hfree part.data) (hfiles part.data) (show (500 : Nat) ≠ 400 by decide)
      · rw [if_neg hfail]
        exact .made (.file hfree part.data) (hfiles part.data) (show (200 : Nat) ≠ 400 by decide)

theorem handled_getAvatar : Handled s d (getAvatar petId s { disk := d }) := by
  unfold getAvatar
  split
  · exact .untouched .nothing rfl rfl
  · rename_i petId _
    unfold Store.avatar
    cases hmake : d.makeTemporary ("avatar-" ++ petId ++ "-") ".bin" with
    | error fault => exact .untouched .nothing rfl rfl
    | ok made =>
        obtain ⟨d', path⟩ := made
        obtain ⟨p, hfree, rfl⟩ := Disk.makeTemporary_eq_ok hmake
        have hwrite := hfree.write .empty Store.avatarBytes
        simp only [hwrite]
        refine .made (.file hfree Store.avatarBytes) ?_ ?_
        · intro f hf
          simp only [Store.files, List.mem_append, List.mem_singleton] at hf ⊢
          tauto
        · intro hstatus
          have hmem := status_avatarResponse (d.put p (.file Store.avatarBytes))
            { path, note := Store.noteOf petId }
          rw [hstatus] at hmem
          revert hmem
          decide

/-- Taking a new pet does not touch what is remembered of files. -/
theorem createPet_files (r : Request) (s : Store) :
    (createPet r s).1.uploads = s.uploads ∧ (createPet r s).1.served = s.served := by
  unfold createPet
  cases readPet r with
  | error e => exact ⟨rfl, rfl⟩
  | ok p =>
      dsimp only
      unfold Store.create
      split_ifs <;> exact ⟨rfl, rfl⟩

/-- Deleting a pet does not touch what is remembered of files. -/
theorem deletePet_files (r : Request) (petId : Option String) (s : Store) :
    (deletePet r petId s).1.uploads = s.uploads ∧ (deletePet r petId s).1.served = s.served := by
  unfold deletePet
  cases readDeletion r petId with
  | error e => exact ⟨rfl, rfl⟩
  | ok given =>
      dsimp only
      unfold Store.delete
      split_ifs
      · exact ⟨rfl, rfl⟩
      · cases s.find? given.2 <;> exact ⟨rfl, rfl⟩

/-- Taking a pet that is known by two lists does not touch what is remembered of files. -/
theorem takeCustomPet_files (r : Request) (s : Store) :
    (takeCustomPet r s).1.uploads = s.uploads ∧ (takeCustomPet r s).1.served = s.served := by
  unfold takeCustomPet
  cases readCustomPet r <;> exact ⟨rfl, rfl⟩

/-- Every handler makes at most one file, whose removal is put off, and none if the request is
refused. -/
theorem handled_serve (e : Endpoint) :
    Handled s d (Server.serve e petId r s { disk := d }) := by
  cases e with
  | getAvatar => exact handled_getAvatar
  | putAvatar => exact handled_putAvatar
  | createPet => exact .untouched .nothing (createPet_files r s).1 (createPet_files r s).2
  | deletePet =>
      exact .untouched .nothing (deletePet_files r petId s).1 (deletePet_files r petId s).2
  | customPet => exact .untouched .nothing (takeCustomPet_files r s).1 (takeCustomPet_files r s).2
  | listPets => exact .untouched .nothing rfl rfl
  | showPet => exact .untouched .nothing rfl rfl
  | redirect => exact .untouched .nothing rfl rfl
  | greeting => exact .untouched .nothing rfl rfl

end Handlers

/-! ## One request -/

namespace Server

/-- A file that the handler of a request has made, before anything that was put off is done.
Handlers remove nothing themselves, so that whatever one of them makes is still there then. -/
def Made (v : Server) (r : Request) (p : Place) : Prop :=
  ∃ x, v.served? r = some x ∧ v.disk.at? p = none ∧ x.workspace.disk.at? p ≠ none

/-- What is left of the files of a request when it is answered. -/
structure LeavesNoFile (v : Server) (r : Request) : Prop where
  /-- The disk is as the request found it. -/
  disk : (v.answer r).1.disk = v.disk
  /-- No file that was made is there any longer. -/
  gone : ∀ p, v.Made r p → (v.answer r).1.disk.at? p = none
  /-- Every file that was received or handed out was made for the request. -/
  remembered : ∀ path ∈ (v.answer r).1.store.files,
    path ∈ v.store.files ∨ ∃ p, v.Made r p ∧ (v.answer r).1.disk.place path = .ok p
  /-- A request that is refused has made no file, and none was received or handed out. -/
  refused : (v.answer r).2.status = 400 → (∀ p, ¬ v.Made r p) ∧
    (v.answer r).1.store.uploads = v.store.uploads ∧ (v.answer r).1.store.served = v.store.served

section Requests

variable {v : Server} {r : Request} {x : Served}

theorem not_made_of_not_served (h : v.served? r = none) (p : Place) : ¬ v.Made r p := by
  rintro ⟨x, hx, _⟩
  rw [h] at hx
  cases hx

theorem not_made_of_owes (h : v.served? r = some x) (howes : Owes v.disk x.workspace none)
    (p : Place) : ¬ v.Made r p := by
  rintro ⟨y, hy, hvacant, hmade⟩
  obtain rfl := Option.some.inj (h.symm.trans hy)
  cases hworkspace : x.workspace with
  | mk disk registry =>
      rw [hworkspace] at howes hmade
      cases howes
      exact hmade hvacant

theorem made_of_owes {path : FilePath} {p : Place} (h : v.served? r = some x)
    (howes : Owes v.disk x.workspace (some (path, p))) :
    v.Made r p ∧ v.disk.place path = .ok p := by
  cases hworkspace : x.workspace with
  | mk disk registry =>
      rw [hworkspace] at howes
      cases howes with
      | file hfree content =>
          refine ⟨⟨x, h, hfree.vacant, ?_⟩, hfree.place⟩
          rw [hworkspace]
          dsimp only
          rw [Disk.at?_put_self hfree.ne_nil]
          exact Option.some_ne_none _

/-- A request leaves no file behind. -/
theorem leavesNoFile (v : Server) (r : Request) : LeavesNoFile v r := by
  cases hserved : v.served? r with
  | none =>
      have hanswer := (answer_of_not_served hserved).1
      refine ⟨by rw [hanswer], fun p hp => absurd hp (not_made_of_not_served hserved p), ?_, ?_⟩
      · rw [hanswer]
        exact fun path hpath => Or.inl hpath
      · rw [hanswer]
        exact fun _ => ⟨not_made_of_not_served hserved, rfl, rfl⟩
  | some x =>
      have hanswer := answer_of_served? hserved
      have hhandled : Handled v.store v.disk x := by
        obtain ⟨e, params, _, _, rfl⟩ := served?_eq_some_iff.1 hserved
        exact handled_serve e
      cases hhandled with
      | untouched howes huploads hfiles =>
          have hdisk : (v.answer r).1.disk = v.disk := by
            rw [hanswer]
            exact howes.cleanup
          refine ⟨hdisk, fun p hp => absurd hp (not_made_of_owes hserved howes p), ?_, ?_⟩
          · intro path hpath
            rw [hanswer] at hpath
            refine Or.inl ?_
            simpa only [Store.files, huploads, hfiles] using hpath
          · intro _
            rw [hanswer]
            exact ⟨not_made_of_owes hserved howes, huploads, hfiles⟩
      | @made path p howes hfiles haccepted =>
          have hdisk : (v.answer r).1.disk = v.disk := by
            rw [hanswer]
            exact howes.cleanup
          refine ⟨hdisk, ?_, ?_, ?_⟩
          · rintro q ⟨_, _, hvacant, _⟩
            rw [hdisk]
            exact hvacant
          · intro f hf
            rw [hdisk]
            rw [hanswer] at hf
            rcases hfiles f hf with hold | rfl
            · exact Or.inl hold
            · exact Or.inr ⟨p, made_of_owes hserved howes⟩
          · intro hstatus
            rw [hanswer] at hstatus
            exact absurd ((status_headOnly r _).symm.trans hstatus) haccepted

/-- The file with an avatar is made and is gone. -/
example :
    let r : Request := { method := "GET", target := "/pets/1/avatar" }
    ((initial none).served? r).map (·.workspace.disk.at? ["tmp", "avatar-1-100000.bin"]) =
        some (some (.file Store.avatarBytes)) ∧
      ((initial none).answer r).1.disk.at? ["tmp", "avatar-1-100000.bin"] = none := by
  decide +kernel

end Requests

/-! ## Requests one after the other -/

/-- A request, and what others did to the disk before it came. -/
structure Visit where
  between : Disk → Disk
  request : Request

/-- The server that a request finds. -/
def found (v : Server) (x : Visit) : Server :=
  { v with disk := x.between v.disk }

/-- The server after requests, between which others may change the disk. -/
def after (v : Server) : List Visit → Server
  | [] => v
  | x :: xs => after ((v.found x).answer x.request).1 xs

/-- Requests between which nothing happens are a run. -/
theorem after_undisturbed (v : Server) (rs : List Request) :
    v.after (rs.map fun r => ⟨id, r⟩) = (v.run rs).1 := by
  induction rs generalizing v with
  | nil => rfl
  | cons r rs ih => exact ih _

theorem disk_after (v : Server) (xs : List Visit) :
    (v.after xs).disk = xs.foldl (fun d x => x.between d) v.disk := by
  induction xs generalizing v with
  | nil => rfl
  | cons x xs ih =>
      rw [after, ih, List.foldl_cons, (leavesNoFile (v.found x) x.request).disk]
      rfl

/-- However many requests came before, a request leaves no file behind, and all that requests leave
of the disk is what others made of it. -/
theorem visits_leave_no_file (v : Server) (before : List Visit) (x : Visit) :
    LeavesNoFile ((v.after before).found x) x.request ∧
      (v.after (before ++ [x])).disk = (before ++ [x]).foldl (fun d x => x.between d) v.disk :=
  ⟨leavesNoFile _ _, disk_after v _⟩

/-- Requests between which nothing happens leave the disk as it was, and none of the files that they
sent or were sent is found. -/
theorem run_leaves_no_file (v : Server) (rs : List Request) :
    (v.run rs).1.disk = v.disk ∧ ∀ path ∈ (v.run rs).1.store.files,
      path ∈ v.store.files ∨ v.disk.find path = .error .missing := by
  induction rs generalizing v with
  | nil => exact ⟨rfl, fun path hpath => Or.inl hpath⟩
  | cons r rs ih =>
      have hone := leavesNoFile v r
      obtain ⟨hdisk, hfiles⟩ := ih (v.answer r).1
      rw [hone.disk] at hdisk hfiles
      refine ⟨hdisk, fun path hpath => ?_⟩
      rcases hfiles path hpath with hold | hmissing
      · rcases hone.remembered path hold with hbefore | ⟨p, hmade, hplace⟩
        · exact Or.inl hbefore
        · have hgone := hone.gone p hmade
          rw [hone.disk] at hplace hgone
          refine Or.inr ?_
          unfold Disk.find
          rw [hplace]
          simp only [bind, Except.bind, hgone]
      · exact Or.inr hmissing

end Server

end PetStore
end ApiContract
