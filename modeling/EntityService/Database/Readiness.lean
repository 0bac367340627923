import EntityService.Database.ProviderUploads

/-! When all parties of a project count as having contributed. The count is a join with the
uploads, so it is exact only while no provider has two of them. -/
namespace EntityService.Database
open Lib

def parties (db : Database) (projectId : ProjectId) : List DataproviderRow :=
  db.dataproviders.filter fun d => d.project = projectId

/-- The project has been created with all its data providers. -/
def Complete (db : Database) (projectId : ProjectId) : Prop :=
  ∃ row, db.findProject projectId = some row ∧ row.parties = (db.parties projectId).length

def SingleUploads (db : Database) : Prop := ∀ dpId, (db.uploadsOf dpId).length ≤ 1

def SingleUploadsOf (db : Database) (projectId : ProjectId) : Prop :=
  ∀ d ∈ db.parties projectId, (db.uploadsOf d.id).length ≤ 1

theorem SingleUploads.of_project {db : Database} (h : db.SingleUploads) (projectId : ProjectId) :
    db.SingleUploadsOf projectId := fun d _ => h d.id

/-- The uploads of a project that count as contributions. -/
def contributed (db : Database) (projectId : ProjectId) (counts : UploadRow → Bool) : ℕ :=
  (db.providerUploads projectId).countP fun r => r.1.uploaded = .done ∧ counts r.2

theorem sum_map_eq_length_iff {α : Type*} {l : List α} {f : α → ℕ} (h : ∀ x ∈ l, f x ≤ 1) :
    (l.map f).sum = l.length ↔ ∀ x ∈ l, f x = 1 := by
  induction l with
  | nil => simp
  | cons x l ih =>
    have hx := h x List.mem_cons_self
    have hl := fun y hy => h y (List.mem_cons_of_mem x hy)
    have hle : (l.map f).sum ≤ l.length := by
      simpa using List.sum_le_card_nsmul (l.map f) 1 (by simpa using hl)
    rw [List.forall_mem_cons, ← ih hl, List.map_cons, List.sum_cons, List.length_cons]
    omega

section Contributed
variable {db : Database} {projectId : ProjectId} {counts : UploadRow → Bool}

theorem contributed_eq_sum : db.contributed projectId counts = ((db.parties projectId).map fun d =>
    if d.uploaded = .done then (db.uploadsOf d.id).countP counts else 0).sum := by
  unfold contributed
  rw [providerUploads_eq, List.countP_flatMap]
  refine congrArg List.sum (List.map_congr_left fun d _ => ?_)
  rw [Function.comp_apply, List.countP_map]
  split_ifs with hd
  · exact List.countP_congr fun u _ => by simp [hd]
  · exact List.countP_eq_zero.mpr fun u _ => by simp [hd]

theorem contribution_le (h : db.SingleUploadsOf projectId) {d : DataproviderRow}
    (hd : d ∈ db.parties projectId) :
    (if d.uploaded = .done then (db.uploadsOf d.id).countP counts else 0) ≤ 1 := by
  split_ifs
  · exact List.countP_le_length.trans (h d hd)
  · exact Nat.zero_le 1

theorem contributed_le (h : db.SingleUploadsOf projectId) :
    db.contributed projectId counts ≤ (db.parties projectId).length := by
  rw [contributed_eq_sum]
  have hle := List.sum_le_card_nsmul ((db.parties projectId).map fun d =>
    if d.uploaded = .done then (db.uploadsOf d.id).countP counts else 0) 1
    (by simpa using fun d hd => contribution_le h hd)
  simpa using hle

/-- All parties have contributed exactly when each has an upload that counts. -/
theorem contributed_eq_length_iff (h : db.SingleUploadsOf projectId) :
    db.contributed projectId counts = (db.parties projectId).length ↔
      ∀ d ∈ db.parties projectId,
        d.uploaded = .done ∧ ∃ u ∈ db.uploadsOf d.id, counts u = true := by
  rw [contributed_eq_sum, sum_map_eq_length_iff fun d hd => contribution_le h hd]
  refine forall₂_congr fun d hd => ?_
  have hpos : 0 < (db.uploadsOf d.id).countP counts ↔ ∃ u ∈ db.uploadsOf d.id, counts u = true :=
    List.countP_pos_iff
  have hle := (List.countP_le_length (p := counts) (l := db.uploadsOf d.id)).trans (h d hd)
  rw [← hpos]
  split_ifs with hdone
  · simp only [hdone, true_and]
    omega
  · simp [hdone]

end Contributed

section Check
variable {db : Database} {projectId : ProjectId}

theorem getNumberPartiesReady_eq : db.getNumberPartiesReady projectId =
    db.contributed projectId fun u => u.state = .ready := by
  unfold getNumberPartiesReady contributed
  exact List.countP_congr fun r _ => by simp

theorem getNumberPartiesUploaded_eq : db.getNumberPartiesUploaded projectId =
    db.contributed projectId fun _ => true := by
  unfold getNumberPartiesUploaded contributed
  exact List.countP_congr fun r _ => by simp

theorem clksUploadedToProject_eq {row : ProjectRow} (hrow : db.findProject projectId = some row)
    (checkDataReady : Bool) : db.clksUploadedToProject projectId checkDataReady =
      .ok (db.contributed projectId (fun u => !checkDataReady || u.state = .ready) =
        row.parties) := by
  unfold clksUploadedToProject
  rw [hrow]
  cases checkDataReady with
  | true =>
    simp only [if_true, getNumberPartiesReady_eq]
    rfl
  | false =>
    simp only [Bool.false_eq_true, if_false, getNumberPartiesUploaded_eq]
    rfl

/-- The parties count as ready exactly when all uploads are done and ready. -/
theorem clksUploadedToProject_iff (h : db.SingleUploadsOf projectId)
    (hcomplete : db.Complete projectId) (checkDataReady : Bool) :
    db.clksUploadedToProject projectId checkDataReady = .ok true ↔
      ∀ d ∈ db.parties projectId, d.uploaded = .done ∧
        ∃ u ∈ db.uploadsOf d.id, checkDataReady = true → u.state = .ready := by
  obtain ⟨row, hrow, hparties⟩ := hcomplete
  rw [clksUploadedToProject_eq hrow, hparties, Except.ok.injEq, decide_eq_true_eq,
    contributed_eq_length_iff h]
  simp [Bool.or_eq_true, imp_iff_not_or]

end Check
end EntityService.Database
