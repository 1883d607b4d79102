import LuaReveal.Storage.FileSystem

/-!
# LuaReveal.Proofs.Storage.Laws

What a run relies on where its files are kept, whatever they are kept in: a file
can be read, and a write either stores all of its bytes at the place that its
path leads to, or is refused and leaves everything as it was
(`FileView.Lawful`).  File systems as values keep these laws
(`FileSystem.lawful_view`).
-/

namespace LuaReveal

/-! ## What is kept where -/

/-- A state that files are kept in, seen as a map from places to what lies there,
together with the place that each path leads to, whether or not something lies
there.  Several paths may lead to one place. -/
structure FileView (σ Place : Type) where
  place? : σ → Path → Option Place
  node? : σ → Place → Option Node

namespace FileView

section View

variable {σ Place : Type} (v : FileView σ Place)

/-- The bytes of the file that a path leads to. -/
def content? (s : σ) (path : Path) : Option (List UInt8) :=
  match (v.place? s path).bind (v.node? s) with
  | some (.file bytes) => some bytes
  | _ => none

/-- The state `t` is `s` with the bytes in the file at the place of the path.  All
paths lead where they led. -/
structure Stored (s : σ) (path : Path) (bytes : List UInt8) (t : σ) : Prop where
  exists_place : ∃ place, v.place? s path = some place ∧ v.node? t place = some (.file bytes) ∧
    ∀ other, other ≠ place → v.node? t other = v.node? s other
  place?_eq : ∀ other, v.place? t other = v.place? s other

end View

/-! ## Laws -/

section Laws

variable {σ Place : Type} [Storage (StateM σ)]

/-- The bytes can be written at the path, which leads from `s` to `t`. -/
def Writes (path : Path) (bytes : List UInt8) (s t : σ) : Prop :=
  (Storage.write path bytes : StateM σ (Except StorageError Unit)).run s = (.ok (), t)

/-- Writing the bytes at the path is refused, and the state stays. -/
def Refuses (path : Path) (bytes : List UInt8) (s : σ) (reason : StorageError) : Prop :=
  (Storage.write path bytes : StateM σ (Except StorageError Unit)).run s = (.error reason, s)

/-- The actions on files keep to the view. -/
structure Lawful (v : FileView σ Place) : Prop where
  isFile : ∀ s path,
    (Storage.isFile path : StateM σ Bool).run s = ((v.content? s path).isSome, s)
  read : ∀ {s path bytes}, v.content? s path = some bytes →
    (Storage.read path : StateM σ (Except StorageError (List UInt8))).run s = (.ok bytes, s)
  write : ∀ s path bytes,
    (∃ reason, Refuses path bytes s reason) ∨
      ∃ t, Writes path bytes s t ∧ v.Stored s path bytes t
  writtenAt : ∀ s path, ∃ time, (Storage.writtenAt path : StateM σ Text).run s = (time, s)

theorem Writes.eq {path : Path} {bytes : List UInt8} {s t t' : σ} (h : Writes path bytes s t)
    (h' : Writes path bytes s t') : t = t' :=
  (Prod.mk.inj (h.symm.trans h')).2

/-- What is refused cannot be written. -/
theorem Refuses.not_writes {path : Path} {bytes : List UInt8} {s t : σ} {reason : StorageError}
    (h : Refuses path bytes s reason) : ¬ Writes path bytes s t := by
  intro hw
  have he := (Prod.mk.inj (h.symm.trans hw)).1
  contradiction

theorem Refuses.eq {path : Path} {bytes : List UInt8} {s : σ} {reason reason' : StorageError}
    (h : Refuses path bytes s reason) (h' : Refuses path bytes s reason') : reason = reason' :=
  Except.error.inj (Prod.mk.inj (h.symm.trans h')).1

/-- What can be written is stored. -/
theorem Lawful.stored {v : FileView σ Place} (hv : v.Lawful) {path : Path} {bytes : List UInt8}
    {s t : σ} (h : Writes path bytes s t) : v.Stored s path bytes t := by
  rcases hv.write s path bytes with ⟨reason, hr⟩ | ⟨t', hw, hs⟩
  · exact absurd h hr.not_writes
  · rwa [h.eq hw]

end Laws

/-! ## Stored bytes -/

section Stored

variable {σ Place : Type} {v : FileView σ Place} {s t : σ} {path : Path} {bytes : List UInt8}

/-- A place that the path does not lead to keeps what lies there. -/
theorem Stored.node?_eq (h : v.Stored s path bytes t) {place : Place}
    (hp : v.place? s path ≠ some place) : v.node? t place = v.node? s place := by
  obtain ⟨at_, ha, _, hn⟩ := h.exists_place
  exact hn place fun he => hp (he ▸ ha)

/-- The file at the path has the bytes. -/
theorem Stored.content?_eq (h : v.Stored s path bytes t) : v.content? t path = some bytes := by
  obtain ⟨place, ha, hn, _⟩ := h.exists_place
  rw [content?, h.place?_eq, ha, Option.bind_some, hn]

/-- A file at another place keeps its bytes. -/
theorem Stored.content?_of_ne (h : v.Stored s path bytes t) {other : Path}
    (ho : v.place? s path ≠ v.place? s other) : v.content? t other = v.content? s other := by
  rw [content?, content?, h.place?_eq]
  cases hp : v.place? s other with
  | none => rfl
  | some place =>
      rw [Option.bind_some, Option.bind_some, h.node?_eq (hp ▸ ho)]

end Stored

end FileView

/-! ## File systems as values -/

namespace FileSystem

/-- What lies at each location, and the location that each path leads to. -/
def view : FileView FileSystem Location where
  place? fs path := (fs.locate path).toOption
  node? := lookup

variable {fs : FileSystem} {path : Path} {loc : Location}

theorem lookup_nil (fs : FileSystem) : fs.lookup [] = some .directory := by
  simp [lookup]

/-- A file is only written where a path leads to and no directory lies. -/
theorem locate_of_locateForWriting (h : fs.locateForWriting path = .ok loc) :
    fs.locate path = .ok loc ∧ fs.lookup loc ≠ some .directory := by
  unfold locateForWriting at h
  unfold locate
  cases hw : segments path with
  | error reason => simp [hw, bind, Except.bind] at h
  | ok way =>
      simp only [hw, bind, Except.bind] at h ⊢
      split at h
      · cases hf : fs.follow [] way with
        | error reason => simp [hf] at h
        | ok place =>
            simp only [hf] at h
            split at h <;> simp_all
      · split at h
        · split at h <;> contradiction
        · split at h
          · contradiction
          · split at h <;> contradiction

/-- Putting a file where no directory lies changes no way: a way goes through
directories only. -/
theorem follow_put (h : fs.lookup loc ≠ some .directory) (bytes : List UInt8) (start : Location)
    (way : List Text) :
    ((fs.put loc (.file bytes)).follow start way).toOption = (fs.follow start way).toOption := by
  have hloc : loc ≠ [] := fun he => h (he ▸ lookup_nil fs)
  induction way generalizing start with
  | nil => rfl
  | cons segment rest ih =>
      rw [follow, follow, lookup_put fs _ hloc]
      by_cases hs : start = loc
      · subst hs
        rw [if_pos rfl]
        cases hn : fs.lookup start with
        | none => rfl
        | some node =>
            cases node with
            | directory => exact absurd hn h
            | file _ => rfl
      · rw [if_neg hs]
        split
        · rfl
        · rfl
        · split
          · rfl
          · exact ih _

theorem content?_view (fs : FileSystem) (path : Path) :
    view.content? fs path = (fs.read path).toOption := by
  unfold FileView.content? read
  cases hl : fs.locate path with
  | error reason => simp [view, hl, bind, Except.bind, Except.toOption]
  | ok place =>
      cases hn : fs.lookup place with
      | none => simp [view, hl, hn, bind, Except.bind, Except.toOption]
      | some node => cases node <;> simp [view, hl, hn, bind, Except.bind, Except.toOption]

theorem isFile_eq (fs : FileSystem) (path : Path) :
    fs.isFile path = (view.content? fs path).isSome := by
  unfold FileView.content? isFile
  cases hl : fs.locate path with
  | error reason => simp [view, hl, Except.toOption]
  | ok place =>
      cases hn : fs.lookup place with
      | none => simp [view, hl, hn, Except.toOption]
      | some node => cases node <;> simp [view, hl, hn, Except.toOption]

theorem stored_put {bytes : List UInt8} (h : fs.locateForWriting path = .ok loc) :
    view.Stored fs path bytes (fs.put loc (.file bytes)) := by
  obtain ⟨hl, hd⟩ := locate_of_locateForWriting h
  have hloc : loc ≠ [] := fun he => hd (he ▸ lookup_nil fs)
  refine ⟨⟨loc, ?_, ?_, ?_⟩, ?_⟩
  · simp [view, hl, Except.toOption]
  · simp [view, lookup_put fs _ hloc]
  · intro other ho
    simp [view, lookup_put fs _ hloc, ho]
  · intro other
    change ((fs.put loc (.file bytes)).locate other).toOption = (fs.locate other).toOption
    unfold locate
    cases segments other with
    | error reason => rfl
    | ok way => exact follow_put hd bytes [] way

/-- What is written is put in its place, and a refused write changes nothing. -/
theorem run_write (fs : FileSystem) (path : Path) (bytes : List UInt8) :
    (Storage.write path bytes : StateM FileSystem (Except StorageError Unit)).run fs =
      match fs.locateForWriting path with
      | .ok loc => (.ok (), fs.put loc (.file bytes))
      | .error reason => (.error reason, fs) := by
  cases hw : fs.locateForWriting path with
  | error reason =>
      have he : fs.write path bytes = .error reason := by simp [write, hw, bind, Except.bind]
      simp only [Storage.write, StateT.run_bind, StateT.run_get, pure_bind, he]
      rfl
  | ok loc =>
      have he : fs.write path bytes = .ok (fs.put loc (.file bytes)) := by
        simp [write, hw, bind, Except.bind, pure, Except.pure]
      simp only [Storage.write, StateT.run_bind, StateT.run_get, pure_bind, he]
      rfl

/-- File systems as values keep the laws. -/
theorem lawful_view : view.Lawful where
  isFile fs path := by rw [← isFile_eq]; rfl
  read {fs path bytes} h := by
    have hr : fs.read path = .ok bytes := by
      rw [content?_view] at h
      cases hr : fs.read path with
      | error reason => simp [hr, Except.toOption] at h
      | ok found => simp_all [Except.toOption]
    exact congrArg (·, fs) hr
  write fs path bytes := by
    have hr := run_write fs path bytes
    cases hw : fs.locateForWriting path with
    | error reason => exact .inl ⟨reason, by rw [hw] at hr; exact hr⟩
    | ok loc => exact .inr ⟨_, by rw [hw] at hr; exact hr, stored_put hw⟩
  writtenAt fs path := ⟨fs.clock, rfl⟩

end FileSystem

end LuaReveal
