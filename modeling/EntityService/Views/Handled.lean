import EntityService.Views.AuthChecks
import EntityService.Views.Inline

/-! Uploads that pass the check of their consistency. The handler has a case for most of them, and
raises another exception than a problem on the others. -/
namespace EntityService.Views
open Lib Database Tasks

/-- A result, or a problem that tells the client what is wrong with the request. -/
def Handled {α : Type} : Except Error α → Prop
  | .ok _ => True
  | .error (.problem status _) => 400 ≤ status ∧ status < 500
  | .error _ => False

@[simp] theorem handled_ok {α : Type} (a : α) : Handled (.ok a : Except Error α) := trivial

/-- The key of a mapping of blocks is the text of an index into the encodings. -/
def ValidKey (encodings : List JsonScalar) (key : List Char) : Prop :=
  ∃ i, parseInt key = .ok i ∧ -encodings.length ≤ i ∧ i < encodings.length

/-- The file of the encodings is allowed, and the blocks are not in a file. -/
def ExternalWithInlineBlocks (projectId : ProjectId) (dpId : DpId) (clkJson : ClkJson) : Prop :=
  ∃ file blocks, clkJson.encodings = some (.external file) ∧
    objectStoreUploadPath projectId dpId <+: file.path ∧ clkJson.blocks = some (.map blocks)

/-- The handler has overlooked what the check of the consistency lets pass. It also overlooks block
identifiers with a lone surrogate, which cannot be hashed and are no texts of the model. -/
inductive Overlooked (projectId : ProjectId) (dpId : DpId) (usesBlocking : Bool)
    (clkJson : ClkJson) : Prop
  | noClknblocks (hblocking : usesBlocking = true) (hencodings : clkJson.encodings = none)
      (hclknblocks : clkJson.clknblocks = none)
  | blocksFile {encodings : List JsonScalar} {file : ExternalFile}
      (hencodings : clkJson.encodings = some (.array encodings))
      (hblocks : clkJson.blocks = some (.external file))
  | invalidKey {encodings : List JsonScalar} {blocks : Dict (List Char) (List JsonScalar)}
      {key : List Char} (hencodings : clkJson.encodings = some (.array encodings))
      (hblocks : clkJson.blocks = some (.map blocks)) (hkey : key ∈ blocks.keys)
      (hinvalid : ¬ ValidKey encodings key)
  | encodingFile {encodings : List JsonScalar}
      (hencodings : clkJson.encodings = some (.array encodings))
      (hfile : (Encodings.array encodings).hasFile = true)
  | keyFile {file : ExternalFile} {blocks : Dict (List Char) (List JsonScalar)}
      (hencodings : clkJson.encodings = some (.external file))
      (hallowed : objectStoreUploadPath projectId dpId <+: file.path)
      (hblocks : clkJson.blocks = some (.map blocks)) (hfile : (Blocks.map blocks).hasFile = true)

variable {settings : Settings} {projectId : ProjectId} {dpId : DpId} {token : Token} {w : World}
  {clkJson : ClkJson} {usesBlocking : Bool} {encodings : List JsonScalar}

section External
variable {file : ExternalFile}

theorem checkObjectPathAllowed_cases (projectId : ProjectId) (dpId : DpId) (path : List Char) :
    (objectStoreUploadPath projectId dpId <+: path ∧
      checkObjectPathAllowed projectId dpId path = .ok ()) ∨
    (¬ objectStoreUploadPath projectId dpId <+: path ∧ checkObjectPathAllowed projectId dpId path =
      .error (.problem 403 "Provided object store path is not allowed")) := by
  unfold checkObjectPathAllowed ensure
  by_cases h : objectStoreUploadPath projectId dpId <+: path
  · exact .inl ⟨h, if_pos (List.isPrefixOf_iff_prefix.mpr h)⟩
  · exact .inr ⟨h, if_neg (mt List.isPrefixOf_iff_prefix.mp h)⟩

/-- Encodings in a file are handled, unless there are blocks that are not in a file. -/
theorem handled_externalUpload {blocks : Option Blocks} :
    Handled (externalUpload projectId dpId (.external file) blocks) ↔
      ¬ (objectStoreUploadPath projectId dpId <+: file.path ∧ ∃ map, blocks = some (.map map)) := by
  rcases checkObjectPathAllowed_cases projectId dpId file.path with
    ⟨hallowed, hcheck⟩ | ⟨hallowed, hcheck⟩
  · rcases blocks with _ | map | blocksFile
    · simp [externalUpload, Encodings.file, hcheck]
    · have hraises : ¬ Handled (externalUpload projectId dpId (.external file)
          (some (.map map))) := by
        unfold externalUpload
        simp only [Encodings.file, ok_bind, hcheck, ensure, Blocks.file, error_bind]
        split_ifs <;> exact id
      simp [hraises, hallowed]
    · rcases checkObjectPathAllowed_cases projectId dpId blocksFile.path with
        ⟨-, hblocks⟩ | ⟨-, hblocks⟩
      all_goals
        simp [externalUpload, Encodings.file, Blocks.hasFile, Blocks.file, ensure, hcheck, hblocks,
          Handled]
  · rcases blocks with _ | blocks
    all_goals simp [externalUpload, Encodings.file, hcheck, hallowed, Handled]

theorem externalUpload_inlineBlocks {blocks : Dict (List Char) (List JsonScalar)}
    (hallowed : objectStoreUploadPath projectId dpId <+: file.path)
    (hfile : (Blocks.map blocks).hasFile = false) :
    externalUpload projectId dpId (.external file) (some (.map blocks)) =
      .error .notImplementedError := by
  have hcheck : checkObjectPathAllowed projectId dpId file.path = .ok () := by
    rw [checkObjectPathAllowed, ensure_eq_ok, List.isPrefixOf_iff_prefix]
    exact hallowed
  simp [externalUpload, Encodings.file, hcheck, ensure, hfile]

end External
section Inline
variable {blocks : Dict (List Char) (List JsonScalar)}

theorem parseMagnitude_error {cs : List Char} {e : Error} (h : parseMagnitude cs = .error e) :
    e = .valueError := by
  unfold parseMagnitude ensure at h
  split_ifs at h
  · cases hdigits : parseDigits false 0 cs with
    | none =>
      rw [hdigits] at h
      cases h
      rfl
    | some value =>
      rw [hdigits] at h
      cases h
  · cases h
    rfl

theorem parseInt_error {text : List Char} {e : Error} (h : parseInt text = .error e) :
    e = .valueError := by
  have hraise : ∀ (cs : List Char) (f : ℕ → ℤ),
      (do return f (← parseMagnitude cs) : Except Error ℤ) = .error e → e = .valueError := by
    intro cs f h
    cases hvalue : parseMagnitude cs with
    | ok value =>
      rw [hvalue] at h
      cases h
    | error e' =>
      rw [hvalue] at h
      cases h
      exact parseMagnitude_error hvalue
  unfold parseInt at h
  split at h
  all_goals exact hraise _ _ h

theorem pyIndex_cases {α : Type} (l : List α) (i : ℤ) :
    ((-l.length ≤ i ∧ i < l.length) ∧ ∃ a, pyIndex l i = .ok a) ∨
      (¬ (-l.length ≤ i ∧ i < l.length) ∧ pyIndex l i = .error .indexError) := by
  unfold pyIndex
  dsimp only
  generalize hj : (if i < 0 then i + l.length else i) = j
  have hbounds : -l.length ≤ i ∧ i < l.length ↔ 0 ≤ j ∧ j < l.length := by
    split_ifs at hj <;> omega
  rw [hbounds]
  by_cases hneg : j < 0
  · exact .inr ⟨by omega, if_pos hneg⟩
  · rw [if_neg hneg]
    by_cases hlt : j.toNat < l.length
    · refine .inl ⟨by omega, l[j.toNat], ?_⟩
      rw [List.getElem?_eq_getElem hlt]
      rfl
    · refine .inr ⟨by omega, ?_⟩
      rw [List.getElem?_eq_none (by omega)]
      rfl

theorem convertKey_cases (encodings blocks : List JsonScalar) (key : List Char) :
    (ValidKey encodings key ∧ ∃ encoding, (do
      let encoding ← pyIndex encodings (← parseInt key)
      return encoding :: blocks) = (.ok (encoding :: blocks) : Except Error (List JsonScalar))) ∨
    (¬ ValidKey encodings key ∧ ∃ e, (e = .valueError ∨ e = .indexError) ∧ (do
      let encoding ← pyIndex encodings (← parseInt key)
      return encoding :: blocks) = Except.error e) := by
  cases hint : parseInt key with
  | error e =>
    refine .inr ⟨?_, e, .inl (parseInt_error hint), rfl⟩
    rintro ⟨i, hi, -⟩
    cases hint.symm.trans hi
  | ok i =>
    rcases pyIndex_cases encodings i with ⟨hvalid, encoding, hindex⟩ | ⟨hinvalid, hindex⟩
    · refine .inl ⟨⟨i, hint, hvalid⟩, encoding, ?_⟩
      rw [ok_bind, hindex]
      rfl
    · refine .inr ⟨?_, .indexError, .inr rfl, ?_⟩
      · rintro ⟨i', hi', hvalid⟩
        cases hint.symm.trans hi'
        exact hinvalid hvalid
      · rw [ok_bind, hindex]
        rfl

theorem handled_convert : Handled (convertEncodingUploadToClknblock encodings
    (some (.map blocks))) ↔ ∀ key ∈ blocks.keys, ValidKey encodings key := by
  constructor
  · intro h key hkey
    by_contra hinvalid
    obtain ⟨p, hp, rfl⟩ := List.mem_map.mp hkey
    cases hconvert : convertEncodingUploadToClknblock encodings (some (.map blocks)) with
    | ok entries =>
      obtain ⟨entry, -, hentry⟩ := (mapM_mem hconvert).2 p hp
      rcases convertKey_cases encodings p.2 p.1 with ⟨hvalid, -⟩ | ⟨-, e, -, he⟩
      · exact hinvalid hvalid
      · cases he.symm.trans hentry
    | error e =>
      obtain ⟨p', -, he⟩ := mapM_eq_error hconvert
      rw [hconvert] at h
      rcases convertKey_cases encodings p'.2 p'.1 with ⟨-, encoding, hok⟩ | ⟨-, e', hkind, he'⟩
      · cases hok.symm.trans he
      · cases he'.symm.trans he
        rcases hkind with rfl | rfl
        · exact h
        · exact h
  · intro hvalid
    obtain ⟨entries, hentries⟩ : ∃ entries,
        convertEncodingUploadToClknblock encodings (some (.map blocks)) = .ok entries := by
      refine mapM_succeeds fun p hp => ?_
      have hkey := hvalid p.1 (List.mem_map_of_mem hp)
      rcases convertKey_cases encodings p.2 p.1 with ⟨-, encoding, hok⟩ | ⟨hinvalid, -⟩
      · exact ⟨_, hok⟩
      · exact absurd hkey hinvalid
    rw [hentries]
    exact trivial

theorem handled_bind {α β : Type} {x : Except Error α} {f : α → Except Error β}
    (h : ∀ a, Handled (f a)) : Handled (x >>= f) ↔ Handled x := by
  cases x with
  | ok a => simp [h a]
  | error e => cases e <;> exact Iff.rfl

/-- An upload without entries is a problem of the request. -/
theorem handled_ensure {α : Type} (c : Prop) [Decidable c] (detail : String) (a : α) :
    Handled (do
      ensure c (.problem 400 detail)
      return a : Except Error α) := by
  unfold ensure
  split_ifs
  · exact trivial
  · exact ⟨le_rfl, by omega⟩

theorem noBlocks_of_accepted (haccepted : abortIfInconsistentUpload false clkJson = .ok ()) :
    clkJson.blocks = none ∧ (clkJson.encodings = none → clkJson.clks.isSome) := by
  obtain ⟨clks, clknblocks, encodings, blocks⟩ := clkJson
  cases clknblocks with
  | some => cases haccepted
  | none =>
    cases blocks with
    | some => cases haccepted
    | none =>
      refine ⟨rfl, ?_⟩
      rintro rfl
      cases clks with
      | none => cases haccepted
      | some => rfl

theorem handled_inlineEntries_none (hencodings : clkJson.encodings = none)
    (haccepted : abortIfInconsistentUpload usesBlocking clkJson = .ok ()) :
    Handled (inlineEntries usesBlocking clkJson) ↔
      ¬ (usesBlocking = true ∧ clkJson.clknblocks = none) := by
  unfold inlineEntries
  rw [hencodings]
  cases usesBlocking with
  | false =>
    obtain ⟨clks, hclks⟩ := Option.isSome_iff_exists.mp
      ((noBlocks_of_accepted haccepted).2 hencodings)
    rw [hclks]
    have hhandled := handled_ensure (1 ≤ clks.length) "Missing CLKs information"
      (convertClksToClknblocks clks)
    simpa using hhandled
  | true =>
    cases hclknblocks : clkJson.clknblocks with
    | none =>
      have hraises : ¬ Handled (.error .keyError : Except Error (List (List JsonScalar))) := id
      simpa [orRaise] using hraises
    | some entries =>
      have hhandled := handled_ensure (1 ≤ entries.length) "Missing CLKs information" entries
      simpa [orRaise] using hhandled

theorem handled_inlineEntries_array (hencodings : clkJson.encodings = some (.array encodings)) :
    Handled (inlineEntries usesBlocking clkJson) ↔
      Handled (convertEncodingUploadToClknblock encodings clkJson.blocks) := by
  unfold inlineEntries
  rw [hencodings]
  exact handled_bind fun entries => handled_ensure _ _ entries

/-- The blocks that go with encodings in the request itself: none, or a mapping from valid keys. -/
theorem handled_inlineEntries_iff (hencodings : clkJson.encodings = some (.array encodings))
    (hinline : (Encodings.array encodings).hasFile = false) :
    Handled (inlineEntries usesBlocking clkJson) ↔
      ¬ Overlooked projectId dpId usesBlocking clkJson := by
  rw [handled_inlineEntries_array hencodings]
  constructor
  · intro h hoverlooked
    cases hoverlooked with
    | noClknblocks _ hnone => cases hencodings.symm.trans hnone
    | keyFile hexternal => cases hencodings.symm.trans hexternal
    | encodingFile harray hfile =>
      cases hencodings.symm.trans harray
      rw [hinline] at hfile
      cases hfile
    | blocksFile _ hblocks =>
      rw [hblocks] at h
      exact h
    | invalidKey harray hblocks hkey hinvalid =>
      cases hencodings.symm.trans harray
      rw [hblocks] at h
      exact hinvalid (handled_convert.mp h _ hkey)
  · intro hcovered
    cases hblocks : clkJson.blocks with
    | none => exact trivial
    | some blocks =>
      cases blocks with
      | external file => exact absurd (.blocksFile hencodings hblocks) hcovered
      | map blocks =>
        refine handled_convert.mpr fun key hkey => ?_
        by_contra hinvalid
        exact hcovered (.invalidKey hencodings hblocks hkey hinvalid)

/-- The entries have an encoding each if those have that the client gives as entries. -/
theorem nonempty_inlineEntries {entries : List (List JsonScalar)}
    (hnonempty : ∀ given, clkJson.clknblocks = some given → [] ∉ given)
    (h : inlineEntries usesBlocking clkJson = .ok entries) : [] ∉ entries := by
  unfold inlineEntries at h
  split at h
  case h_1 encodings hencodings =>
    cases encodings with
    | external file => cases h
    | array encodings =>
      obtain ⟨entries', hconvert, h⟩ := bind_eq_ok.mp h
      obtain ⟨_, -, he⟩ := bind_eq_ok.mp h
      cases he
      cases hblocks : clkJson.blocks with
      | none =>
        rw [hblocks] at hconvert
        cases hconvert
        simp
      | some blocks =>
        rw [hblocks] at hconvert
        cases blocks with
        | external file => cases hconvert
        | map blocks =>
          intro hnil
          obtain ⟨p, -, hp⟩ := (mapM_mem hconvert).1 [] hnil
          rcases convertKey_cases encodings p.2 p.1 with ⟨-, encoding, hok⟩ | ⟨-, e, -, he⟩
          · cases hok.symm.trans hp
          · cases he.symm.trans hp
  case h_2 =>
    split at h
    · obtain ⟨_, -, he⟩ := bind_eq_ok.mp h
      cases he
      simp [convertClksToClknblocks]
    · obtain ⟨given, hgiven, h⟩ := bind_eq_ok.mp h
      obtain ⟨_, -, he⟩ := bind_eq_ok.mp h
      cases he
      exact hnonempty entries (orRaise_eq_ok.mp hgiven)

end Inline
/-- The numbers that are stored of the entries of an upload fit their columns. -/
structure CountsFit (settings : Settings) (entries : List (List JsonScalar)) : Prop where
  length : Int4 entries.length
  blocks : Int4 (counted (listedNames settings.blake2b entries)).length
  counts : ∀ b ∈ counted (listedNames settings.blake2b entries), Int4 b.2

theorem CountsFit.countable {entries : List (List JsonScalar)} (h : CountsFit settings entries)
    (hnonempty : [] ∉ entries) : Countable settings entries :=
  ⟨hnonempty, h.length, h.blocks, h.counts⟩

section Handler

/-- The entries of an upload are stored once they are in the common format. -/
theorem handled_inline (haccepted : abortIfInconsistentUpload usesBlocking clkJson = .ok ())
    (hnonempty : ∀ given, clkJson.clknblocks = some given → [] ∉ given)
    (hfresh : w.db.FreshToken token)
    (hfits : ∀ entries, inlineEntries usesBlocking clkJson = .ok entries →
      CountsFit settings entries) (hinline : clkJson.externalEncodings = none) :
    Handled (handleEncodingUploadJson settings projectId dpId clkJson token usesBlocking w).2 ↔
      Handled (inlineEntries usesBlocking clkJson) := by
  rw [handleEncodingUploadJson_of_ok haccepted, hinline]
  dsimp only
  cases hentries : inlineEntries usesBlocking clkJson with
  | error e =>
    rw [Action.lift_error_bind]
    cases e <;> exact Iff.rfl
  | ok entries =>
    have hcountable := (hfits entries hentries).countable
      (nonempty_inlineEntries hnonempty hentries)
    have hstored := quarantineUpload_eq_ok.mpr
      ⟨⟨hfresh, hcountable⟩, rfl, (rfl : _ = quarantined settings w dpId token entries)⟩
    rw [Action.lift_ok_bind, hstored]
    exact Iff.rfl

/-- An accepted upload is handled exactly if it is not overlooked and not left out. -/
theorem handled_iff (haccepted : abortIfInconsistentUpload usesBlocking clkJson = .ok ())
    (hnonempty : ∀ given, clkJson.clknblocks = some given → [] ∉ given)
    (hfresh : w.db.FreshToken token)
    (hfits : ∀ entries, inlineEntries usesBlocking clkJson = .ok entries →
      CountsFit settings entries) :
    Handled (handleEncodingUploadJson settings projectId dpId clkJson token usesBlocking w).2 ↔
      ¬ Overlooked projectId dpId usesBlocking clkJson ∧
        ¬ ExternalWithInlineBlocks projectId dpId clkJson := by
  cases hencodings : clkJson.encodings with
  | none =>
    have hinline : clkJson.externalEncodings = none := by
      rw [ClkJson.externalEncodings, hencodings]
      rfl
    rw [handled_inline haccepted hnonempty hfresh hfits hinline,
      handled_inlineEntries_none hencodings haccepted]
    constructor
    · intro h
      constructor
      · intro hoverlooked
        cases hoverlooked with
        | noClknblocks hblocking _ hnone => exact h ⟨hblocking, hnone⟩
        | _ hsome => cases hencodings.symm.trans hsome
      · rintro ⟨file, blocks, hsome, -⟩
        cases hencodings.symm.trans hsome
    · rintro ⟨hcovered, -⟩ ⟨hblocking, hnone⟩
      exact hcovered (.noClknblocks hblocking hencodings hnone)
  | some given =>
    cases given with
    | external file =>
      have hexternal : clkJson.externalEncodings = some (.external file) := by
        rw [ClkJson.externalEncodings, hencodings]
        rfl
      rw [handleEncodingUploadJson_of_ok haccepted, hexternal]
      dsimp only [Action.lift_apply]
      rw [handled_externalUpload]
      constructor
      · intro h
        constructor
        · intro hoverlooked
          cases hoverlooked with
          | keyFile hsome hallowed hblocks =>
            cases hencodings.symm.trans hsome
            exact h ⟨hallowed, _, hblocks⟩
          | noClknblocks _ hnone => cases hencodings.symm.trans hnone
          | _ hsome => cases hencodings.symm.trans hsome
        · rintro ⟨file', blocks, hsome, hallowed, hblocks⟩
          cases hencodings.symm.trans hsome
          exact h ⟨hallowed, blocks, hblocks⟩
      · rintro ⟨-, hgap⟩ ⟨hallowed, blocks, hblocks⟩
        exact hgap ⟨file, blocks, hencodings, hallowed, hblocks⟩
    | array encodings =>
      have hnoGap : ¬ ExternalWithInlineBlocks projectId dpId clkJson := by
        rintro ⟨file, blocks, hsome, -⟩
        cases hencodings.symm.trans hsome
      rw [and_iff_left hnoGap]
      cases hfile : (Encodings.array encodings).hasFile with
      | true =>
        have hexternal : clkJson.externalEncodings = some (.array encodings) := by
          rw [ClkJson.externalEncodings, hencodings, Option.filter_some_pos hfile]
        rw [handleEncodingUploadJson_of_ok haccepted, hexternal]
        dsimp only [Action.lift_apply]
        have hraises : externalUpload projectId dpId (.array encodings) clkJson.blocks =
            .error .typeError := by
          cases clkJson.blocks <;> rfl
        rw [hraises]
        exact iff_of_false id fun h => h (.encodingFile hencodings hfile)
      | false =>
        have hinline : clkJson.externalEncodings = none := by
          rw [ClkJson.externalEncodings, hencodings, Option.filter_some_neg (by simp [hfile])]
        rw [handled_inline haccepted hnonempty hfresh hfits hinline]
        exact handled_inlineEntries_iff hencodings hfile

/-- An accepted upload is handled, but encodings in a file do not go with blocks that are not in
a file. -/
theorem handled_of_accepted (haccepted : abortIfInconsistentUpload usesBlocking clkJson = .ok ())
    (hnonempty : ∀ given, clkJson.clknblocks = some given → [] ∉ given)
    (hfresh : w.db.FreshToken token)
    (hfits : ∀ entries, inlineEntries usesBlocking clkJson = .ok entries →
      CountsFit settings entries)
    (hcovered : ¬ Overlooked projectId dpId usesBlocking clkJson) :
    (¬ ExternalWithInlineBlocks projectId dpId clkJson → Handled
      (handleEncodingUploadJson settings projectId dpId clkJson token usesBlocking w).2) ∧
    (ExternalWithInlineBlocks projectId dpId clkJson →
      (handleEncodingUploadJson settings projectId dpId clkJson token usesBlocking w).2 =
        .error .notImplementedError) := by
  constructor
  · intro hfiles
    exact (handled_iff haccepted hnonempty hfresh hfits).mpr ⟨hcovered, hfiles⟩
  · rintro ⟨file, blocks, hencodings, hallowed, hblocks⟩
    have hexternal : clkJson.externalEncodings = some (.external file) := by
      rw [ClkJson.externalEncodings, hencodings]
      rfl
    have hfile : (Blocks.map blocks).hasFile = false := by
      by_contra hfile
      rw [Bool.not_eq_false] at hfile
      exact hcovered (.keyFile hencodings hallowed hblocks hfile)
    rw [handleEncodingUploadJson_of_ok haccepted, hexternal, hblocks]
    exact externalUpload_inlineBlocks hallowed hfile

end Handler
/-- Two encodings with a block each. The second one is named by an index from the end. -/
def indexedUpload : ClkJson where
  clks := none
  clknblocks := none
  encodings := some (.array [.str "AAAA".toList, .str "BBBB".toList])
  blocks := some (.map ((Dict.empty.set "0".toList [.str "1".toList]).set " -1 ".toList
    [.str "2".toList]))

theorem not_overlooked_indexedUpload : ¬ Overlooked "p" 1 true indexedUpload := by
  intro h
  cases h with
  | noClknblocks _ hencodings => cases hencodings
  | blocksFile _ hblocks => cases hblocks
  | invalidKey hencodings hblocks hkey hinvalid =>
    cases hencodings
    cases hblocks
    rcases List.mem_pair.mp hkey with rfl | rfl
    · exact hinvalid ⟨0, rfl, by decide, by decide⟩
    · exact hinvalid ⟨-1, rfl, by decide, by decide⟩
  | encodingFile hencodings hfile =>
    cases hencodings
    exact absurd hfile (by decide)
  | keyFile hencodings => cases hencodings

theorem handled_indexedUpload : Handled (handleEncodingUploadJson defaultSettings "p" 1
    indexedUpload "t" true ⟨twoProjects, Dict.empty, Dict.empty⟩).2 := by
  have hfresh : twoProjects.FreshToken "t" := List.not_mem_nil
  have hentries : inlineEntries true indexedUpload =
    .ok [[.str "AAAA".toList, .str "1".toList], [.str "BBBB".toList, .str "2".toList]] := rfl
  have hnonempty : ∀ given, indexedUpload.clknblocks = some given → [] ∉ given := by
    intro given hgiven
    cases hgiven
  refine (handled_of_accepted rfl hnonempty hfresh ?_ not_overlooked_indexedUpload).1 ?_
  · intro entries he
    cases hentries.symm.trans he
    have hcountable : Countable defaultSettings
        [[.str "AAAA".toList, .str "1".toList], [.str "BBBB".toList, .str "2".toList]] :=
      countable_of_length (by decide) (by decide) (by decide)
    exact ⟨hcountable.length, hcountable.blocks, hcountable.counts⟩
  · rintro ⟨file, blocks, hencodings, -⟩
    cases hencodings

/-- Blocks in the request are not combined with encodings in a file. -/
theorem not_handled_externalEncodings : ∃ clkJson,
    abortIfInconsistentUpload true clkJson = .ok () ∧
    (handleEncodingUploadJson defaultSettings "p" 1 clkJson "t" true
      ⟨twoProjects, Dict.empty, Dict.empty⟩).2 = .error .notImplementedError ∧
    ¬ Handled (handleEncodingUploadJson defaultSettings "p" 1 clkJson "t" true
      ⟨twoProjects, Dict.empty, Dict.empty⟩).2 := by
  have hraises : (handleEncodingUploadJson defaultSettings "p" 1
      ⟨none, none, some (.external ⟨"uploads", "p/1/encodings".toList⟩),
        some (.map (Dict.empty.set "0".toList [.str "1".toList]))⟩ "t" true
      ⟨twoProjects, Dict.empty, Dict.empty⟩).2 = .error .notImplementedError := by decide
  refine ⟨_, rfl, hraises, ?_⟩
  rw [hraises]
  exact id
end EntityService.Views
