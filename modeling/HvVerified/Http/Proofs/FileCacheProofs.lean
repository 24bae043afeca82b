import HvVerified.Http.FileCache
import Mathlib.Data.List.Nodup

/-!
# Coherence of the file cache

An entry is sound if its `st` is that of a version of the file and if its content, when it has the length
that `st` says, and its tags come from one version. `Open` keeps this up as long as it does not put tags
of one version on content of another, which it does in two cases: a check without a read that meets
content of the right length by chance, and a read of a newer version under an old `st`.
-/

namespace HvVerified.Http.Proofs

open Base Lib Function List Option FileCacheT FileWorld

variable {fc fc' : FileCacheT} {c : FileCache} {sys : Syscalls} {st : Stat} {v : Version}
  {versions : List Version} {filepath : ByteString} {param : OpenParam} {w : FileWorld}

/-! ## Entries -/

theorem content_eq_nil (h : fc.fileLen = 0) : fc.content = [] := by
  unfold content
  rw [h]
  exact slice_self _ _

theorem length_content (fc : FileCacheT) : fc.content.length = fc.fileLen := by
  unfold content
  rw [length_slice]
  omega

section Load

variable {gmtimeFmt : Int → ByteString}

def TaggedBy (gmtimeFmt : Int → ByteString) (e : FileCacheT) (st : Stat) : Prop :=
  e.lastModified = gmtimeFmt st.mtime ∧ e.etag = etagText st

/-- What `Open` does with the entry `fc` of a regular file. -/
inductive LoadCase (gmtimeFmt : Int → ByteString) (fc : FileCacheT) (param : OpenParam) (sys : Syscalls)
    (e : FileCacheT) (r : OpenResult) : Prop where
  | overLimit (hneed : param.needRead) (hlimit : param.maxRead < fc.st.size) (he : e = fc)
      (hfc : r.fc = none) (hdelivered : r.delivered = none)
  | tagged (hneed : param.needRead = false) (hst : e.st = fc.st) (hlen : e.fileLen = fc.fileLen)
      (hcontent : e.content = fc.content) (htags : TaggedBy gmtimeFmt e fc.st)
      (hfc : r.fc = some e) (hdelivered : r.delivered = none)
  | short (hneed : param.needRead) (hst : e.st = fc.st)
      (hread : ((sys.read fc.st.size).map (List.take fc.st.size)).map List.length ≠ some fc.st.size)
      (hfc : r.fc = none)
  | read (bytes : ByteString) (hneed : param.needRead)
      (hread : (sys.read fc.st.size).map (List.take fc.st.size) = some bytes) (hsize : bytes.length = fc.st.size)
      (hst : e.st = fc.st) (hlen : e.fileLen = fc.st.size) (hcontent : e.content = bytes)
      (htags : TaggedBy gmtimeFmt e fc.st) (hfc : r.fc = some e) (hdelivered : r.delivered = some bytes)

theorem load_cases (gmtimeFmt : Int → ByteString) (filepath : ByteString) (param : OpenParam)
    (sys : Syscalls) (hkind : fc.st.kind = .regular) :
    LoadCase gmtimeFmt fc param sys (fc.load gmtimeFmt filepath param sys).1
      (fc.load gmtimeFmt filepath param sys).2 := by
  have hload : fc.load gmtimeFmt filepath param sys = fc.loadFile gmtimeFmt filepath param sys := by
    rw [load, hkind]
  rw [hload]
  cases hneed : param.needRead with
  | false =>
    have hread : fc.readFile param sys = (fc, .none, none) := by
      rw [readFile, if_pos hneed]
    rw [loadFile, hread]
    exact .tagged hneed rfl rfl rfl ⟨rfl, rfl⟩ rfl rfl
  | true =>
    by_cases hlimit : fc.st.size > param.maxRead
    · have hread : fc.readFile param sys = (fc, .overLimit, none) := by
        rw [readFile, if_neg (by simp [hneed]), if_pos hlimit]
      rw [loadFile, hread]
      exact .overLimit hneed hlimit rfl rfl rfl
    by_cases hlen : ((sys.read fc.st.size).map (take fc.st.size)).map length = some fc.st.size
    · obtain ⟨bytes, hbytes, hsize⟩ := map_eq_some_iff.1 hlen
      have hread : fc.readFile param sys =
          ((fc.resizeBuf fc.st.size).storeFile bytes, .none, some bytes) := by
        rw [readFile, if_neg (by simp [hneed]), if_neg hlimit, if_neg (not_not.2 hlen), hbytes]
        rfl
      rw [loadFile, hread]
      have hcontent : ((fc.resizeBuf fc.st.size).storeFile bytes).content = bytes := by
        rw [← hsize]
        exact slice_store_same _ _ _
      exact .read bytes hneed hbytes hsize rfl rfl hcontent ⟨rfl, rfl⟩ rfl rfl
    · have hread : (fc.readFile param sys).2.1 = .readFile ∧ (fc.readFile param sys).1.st = fc.st := by
        rw [readFile, if_neg (by simp [hneed]), if_neg hlimit, if_pos hlen]
        exact ⟨rfl, rfl⟩
      rw [loadFile, if_pos (by simp [hread.1])]
      exact .short hneed hread.2 hlen rfl

theorem checkModified_due (hdue : sys.now - fc.statTime > c.statInterval) (hstat : sys.restat = some st) :
    c.checkModified fc sys = ({ fc with statTime := sys.now, st := st }, decide (fc.st.mtime ≠ st.mtime)) := by
  rw [FileCache.checkModified, if_pos hdue, isModified, hstat]
  rfl

theorem checkModified_failed (hdue : sys.now - fc.statTime > c.statInterval) (hstat : sys.restat = none) :
    c.checkModified fc sys = ({ fc with statTime := sys.now }, false) := by
  rw [FileCache.checkModified, if_pos hdue, isModified, hstat]
  simp

theorem checkModified_notDue
    (hdue : ¬ sys.now - fc.statTime > c.statInterval) : c.checkModified fc sys = (fc, false) := by
  rw [FileCache.checkModified, if_neg hdue]

/-- What `Open` does with an entry that it finds: it fails before it opens the file, returns the entry as
    it is, or loads it. -/
inductive HitCase (gmtimeFmt : Int → ByteString) (c : FileCache) (filepath : ByteString) (fc : FileCacheT)
    (param : OpenParam) (sys : Syscalls) (e : FileCacheT) (r : OpenResult) : Prop where
  | failed (hsys : sys.stat = none ∨ sys.opened = false) (he : e = (c.checkModified fc sys).1) (hfc : r.fc = none)
  | asIs (hmodified : (c.checkModified fc sys).2 = false)
      (hcomplete : param.needRead → (c.checkModified fc sys).1.isComplete)
      (he : e = (c.checkModified fc sys).1) (hfc : r.fc = some e)
  | loaded (param' : OpenParam) (he : e = ((c.checkModified fc sys).1.load gmtimeFmt filepath param' sys).1)
      (hr : r = ((c.checkModified fc sys).1.load gmtimeFmt filepath param' sys).2)
      (hmax : param'.maxRead = param.maxRead)
      (hneed : param'.needRead = (param.needRead &&
        !(!(c.checkModified fc sys).2 && (c.checkModified fc sys).1.isComplete)))
      (hload : (c.checkModified fc sys).2 ∨ param'.needRead)

theorem openHit_cases (gmtimeFmt : Int → ByteString) (c : FileCache) (filepath : ByteString) (fc : FileCacheT)
    (param : OpenParam) (sys : Syscalls) :
    HitCase gmtimeFmt c filepath fc param sys (c.openHit gmtimeFmt filepath fc param sys).1
      (c.openHit gmtimeFmt filepath fc param sys).2 := by
  unfold FileCache.openHit
  dsimp only
  split_ifs with hload hsys
  · exact .failed hsys rfl rfl
  · exact .loaded _ rfl rfl rfl rfl ((Bool.or_eq_true _ _).mp hload)
  · simp only [Bool.or_eq_true, not_or, Bool.not_eq_true] at hload
    refine .asIs hload.1 (fun hneed => ?_) rfl rfl
    simpa [hneed, hload.1] using hload.2

end Load

/-! ## Sound entries -/

section Sound

variable {gmtimeFmt : Int → ByteString}

@[simp] theorem served_content (fc : FileCacheT) : fc.served.content = fc.content := by
  simp only [FileCacheT.served]

theorem comesFrom_of_tagged (hcontent : fc.content = v.content)
    (htags : TaggedBy gmtimeFmt fc st) (hst : st = v.stat) : fc.served.comesFrom gmtimeFmt v := by
  subst hst
  exact ⟨(served_content fc).trans hcontent, htags.1, htags.2⟩

structure SoundEntry (gmtimeFmt : Int → ByteString) (versions : List Version) (fc : FileCacheT) : Prop where
  st : ∃ v ∈ versions, fc.st = v.stat
  coherent : fc.fileLen = fc.st.size → ∃ v ∈ versions, fc.served.comesFrom gmtimeFmt v

def Answered (gmtimeFmt : Int → ByteString) (versions : List Version) (r : OpenResult) : Prop :=
  ∀ e, r.fc = some e → ∃ v ∈ versions, e.served.comesFrom gmtimeFmt v

theorem isComplete_iff (h : fc.st = v.stat) : fc.isComplete ↔ fc.fileLen = fc.st.size := by
  simp [isComplete, h, Version.stat]

theorem SoundEntry.mono {versions' : List Version} (h : SoundEntry gmtimeFmt versions fc)
    (hsub : versions ⊆ versions') : SoundEntry gmtimeFmt versions' fc := by
  obtain ⟨v, hv, hst⟩ := h.st
  refine ⟨⟨v, hsub hv, hst⟩, fun hcomplete => ?_⟩
  obtain ⟨v', hv', hfrom⟩ := h.coherent hcomplete
  exact ⟨v', hsub hv', hfrom⟩

/-- An entry whose `st` is that of the version that is read: it is sound afterwards if it is read, if it
    does not look complete, or if it has the content of that version. -/
theorem load_sound (gmtimeFmt : Int → ByteString)
    (filepath : ByteString) (param : OpenParam) (hv : v ∈ versions) (hst : fc.st = v.stat)
    (hread : sys.read v.content.length = some v.content)
    (hlimit : param.needRead → v.content.length ≤ param.maxRead ∨ fc.fileLen ≠ v.content.length)
    (hhead : param.needRead = false → fc.fileLen = v.content.length → fc.content = v.content) :
    SoundEntry gmtimeFmt versions (fc.load gmtimeFmt filepath param sys).1 ∧
      (param.needRead → Answered gmtimeFmt versions (fc.load gmtimeFmt filepath param sys).2) := by
  have hsize : fc.st.size = v.content.length := by rw [hst]; rfl
  have hbytes : (sys.read fc.st.size).map (take fc.st.size) = some v.content := by
    rw [hsize, hread, map_some, take_length]
  rcases load_cases gmtimeFmt filepath param sys (show fc.st.kind = .regular by rw [hst]; rfl) with
    ⟨hneed, hover, he, hfc, -⟩ | ⟨hneed, hst', hlen, hcontent, htags, -, -⟩ | ⟨-, -, hshort, -⟩ |
    ⟨bytes, hneed, hbytes', -, hst', hlen, hcontent, htags, hfc, -⟩
  · rw [he]
    refine ⟨⟨⟨v, hv, hst⟩, fun hcomplete => ?_⟩, fun _ e hsome => by rw [hfc] at hsome; cases hsome⟩
    rcases hlimit hneed with hle | hne
    · omega
    · exact absurd (hcomplete.trans hsize) hne
  · refine ⟨⟨⟨v, hv, hst'.trans hst⟩, fun hcomplete => ⟨v, hv, ?_⟩⟩, fun h => by rw [hneed] at h; cases h⟩
    rw [hlen, hst'] at hcomplete
    exact comesFrom_of_tagged (hcontent.trans (hhead hneed (hcomplete.trans hsize))) htags hst
  · exact absurd (by rw [hbytes, map_some, ← hsize]) hshort
  · obtain rfl : v.content = bytes := some.inj (hbytes.symm.trans hbytes')
    have hfrom : (fc.load gmtimeFmt filepath param sys).1.served.comesFrom gmtimeFmt v :=
      comesFrom_of_tagged hcontent htags hst
    refine ⟨⟨⟨v, hv, hst'.trans hst⟩, fun _ => ⟨v, hv, hfrom⟩⟩, fun _ e hsome => ?_⟩
    cases hfc.symm.trans hsome
    exact ⟨v, hv, hfrom⟩

theorem openHit_sound_unmodified (hv : v ∈ versions) (hstat : sys.stat = some v.stat) (hopened : sys.opened)
    (hread : sys.read v.content.length = some v.content) (hcheck : c.checkModified fc sys = (fc', false))
    (hsound : SoundEntry gmtimeFmt versions fc') (hcur : param.needRead → fc'.isComplete ∨ fc'.st = v.stat) :
    SoundEntry gmtimeFmt versions (c.openHit gmtimeFmt filepath fc param sys).1 ∧
      (param.needRead → Answered gmtimeFmt versions (c.openHit gmtimeFmt filepath fc param sys).2) := by
  obtain ⟨v', -, hst'⟩ := hsound.st
  rcases openHit_cases gmtimeFmt c filepath fc param sys with
    ⟨hsys, -, -⟩ | ⟨-, hcomplete, he, hfc⟩ | ⟨param', he, hr, -, hneed, hload⟩
  · rw [hstat, hopened] at hsys
    simp at hsys
  · rw [hcheck] at hcomplete he
    rw [he] at hfc ⊢
    refine ⟨hsound, fun hneed e hsome => ?_⟩
    cases hfc.symm.trans hsome
    exact hsound.coherent ((isComplete_iff hst').1 (hcomplete hneed))
  · rw [hcheck] at he hr hneed hload
    have hneed' : param'.needRead := by simpa using hload
    have hboth : param.needRead ∧ fc'.isComplete = false := by simpa [hneed'] using hneed
    have hst : fc'.st = v.stat := by
      rcases hcur hboth.1 with h | h
      · rw [hboth.2] at h; cases h
      · exact h
    have hincomplete : fc'.fileLen ≠ v.content.length := by
      intro hlen
      have := (isComplete_iff hst).2 (hlen.trans (by rw [hst]; rfl))
      rw [hboth.2] at this
      cases this
    obtain ⟨hs, ha⟩ := load_sound gmtimeFmt filepath param' hv hst hread
      (fun _ => .inr hincomplete) (fun h => by rw [hneed'] at h; cases h)
    rw [he, hr]
    exact ⟨hs, fun _ => ha hneed'⟩

theorem openHit_sound_modified (hv : v ∈ versions) (hstat : sys.stat = some v.stat) (hopened : sys.opened)
    (hread : sys.read v.content.length = some v.content) (hcheck : c.checkModified fc sys = (fc', true))
    (hst : fc'.st = v.stat)
    (hlimit : param.needRead → v.content.length ≤ param.maxRead ∨ fc'.fileLen ≠ v.content.length)
    (hhead : param.needRead = false → fc'.fileLen = v.content.length → fc'.content = v.content) :
    SoundEntry gmtimeFmt versions (c.openHit gmtimeFmt filepath fc param sys).1 ∧
      (param.needRead → Answered gmtimeFmt versions (c.openHit gmtimeFmt filepath fc param sys).2) := by
  rcases openHit_cases gmtimeFmt c filepath fc param sys with
    ⟨hsys, -, -⟩ | ⟨hmodified, -, -, -⟩ | ⟨param', he, hr, hmax, hneed, -⟩
  · rw [hstat, hopened] at hsys
    simp at hsys
  · rw [hcheck] at hmodified
    cases hmodified
  · rw [hcheck] at he hr hneed
    have hneed' : param'.needRead = param.needRead := by simpa using hneed
    rw [he, hr, ← hneed']
    exact load_sound gmtimeFmt filepath param' hv hst hread (fun h => hmax ▸ hlimit (hneed' ▸ h))
      (fun h => hhead (hneed' ▸ h))

theorem SoundEntry.st_eq (h : SoundEntry gmtimeFmt versions fc)
    (hdistinct : (versions.map Version.mtime).Nodup) (hv : v ∈ versions) (hmtime : fc.st.mtime = v.mtime) :
    fc.st = v.stat := by
  obtain ⟨v', hv', hst⟩ := h.st
  rw [hst] at hmtime ⊢
  rw [inj_on_of_nodup_map hdistinct hv' hv hmtime]

end Sound

/-! ## The cache -/

/-- What `Open` does to the cache. The nodes of other paths stay as they are or are dropped. -/
inductive OpenCase (gmtimeFmt : Int → ByteString) (c : FileCache) (filepath : ByteString) (param : OpenParam)
    (sys : Syscalls) (c' : FileCache) (r : OpenResult) : Prop where
  | failed (hfind : c.nodes.find filepath = none) (hc : c' = c) (hfc : r.fc = none)
  | created (st : Stat) (hfind : c.nodes.find filepath = none) (hstat : sys.stat = some st)
      (hr : r = ((newFileCacheT filepath st sys.now).load gmtimeFmt filepath param sys).2)
      (hnodes : ∀ node ∈ c'.nodes,
        node = (filepath, ((newFileCacheT filepath st sys.now).load gmtimeFmt filepath param sys).1) ∨
          node.1 ≠ filepath ∧ node ∈ c.nodes)
  | hit (fc : FileCacheT) (hfind : c.nodes.find filepath = some fc)
      (hr : r = (c.openHit gmtimeFmt filepath fc param sys).2)
      (hnodes : ∀ node ∈ c'.nodes, node = (filepath, (c.openHit gmtimeFmt filepath fc param sys).1) ∨
        node.1 ≠ filepath ∧ node ∈ c.nodes)

theorem openFile_cases (gmtimeFmt : Int → ByteString) (c : FileCache) (filepath : ByteString) (param : OpenParam)
    (sys : Syscalls) : OpenCase gmtimeFmt c filepath param sys (c.openFile gmtimeFmt filepath param sys).1
      (c.openFile gmtimeFmt filepath param sys).2 := by
  cases hfind : c.nodes.find filepath with
  | none =>
    have hopen : c.openFile gmtimeFmt filepath param sys = c.openMiss gmtimeFmt filepath param sys := by
      rw [FileCache.openFile, hfind]
    rw [hopen, FileCache.openMiss]
    split
    · exact .failed hfind rfl rfl
    · next st hstat =>
      split_ifs
      · exact .failed hfind rfl rfl
      · exact .created st hfind hstat rfl fun node hnode => Lru.mem_put_new hfind hnode
      · exact .failed hfind rfl rfl
  | some fc =>
    rw [FileCache.openFile, hfind]
    refine .hit fc hfind rfl fun node hnode => ?_
    rcases Lru.mem_write hnode with rfl | ⟨hne, hmem⟩
    · exact .inl rfl
    · exact .inr ⟨hne, Lru.mem_touch hmem⟩

/-! ## Runs without faults -/

section World

variable {gmtimeFmt : Int → ByteString}

structure CoherentWorld (gmtimeFmt : Int → ByteString) (w : FileWorld) : Prop where
  distinct : ∀ filepath, ((w.versions filepath).map Version.mtime).Nodup
  entries : ∀ node ∈ w.cache.nodes, SoundEntry gmtimeFmt (w.versions node.1) node.2
  coherent : w.coherent gmtimeFmt

theorem mem_versions_of_current (h : w.current filepath = some v) : v ∈ w.versions filepath := mem_of_mem_head? h

theorem readBytes_noFaults
    (h : w.current filepath = some v) : w.readBytes filepath noFaults v.content.length = some v.content := by
  simp [readBytes, noFaults, h]

theorem openHit_sound (hw : CoherentWorld gmtimeFmt w) (hfind : w.cache.nodes.find filepath = some fc)
    (hkeeps : w.keepsCoherence (.open_ filepath param noFaults)) : SoundEntry gmtimeFmt (w.versions filepath)
        (w.cache.openHit gmtimeFmt filepath fc param (w.syscalls filepath noFaults)).1 ∧
      (param.needRead → Answered gmtimeFmt (w.versions filepath)
        (w.cache.openHit gmtimeFmt filepath fc param (w.syscalls filepath noFaults)).2) := by
  have hsound : SoundEntry gmtimeFmt (w.versions filepath) fc := hw.entries _ (Lru.mem_of_find hfind)
  obtain ⟨v, hcur⟩ : ∃ v, w.current filepath = some v := by
    obtain ⟨v, hv, -⟩ := hsound.st
    exact ne_none_iff_exists'.1 fun h => by simp [head?_eq_none_iff.1 h] at hv
  have hv := mem_versions_of_current hcur
  have hstat : (w.syscalls filepath noFaults).stat = some v.stat := by simp [syscalls, noFaults, hcur]
  have hrestat : (w.syscalls filepath noFaults).restat = some v.stat := by simp [syscalls, noFaults, hcur]
  have hread := readBytes_noFaults hcur
  simp only [keepsCoherence, hfind, hcur] at hkeeps
  by_cases hdue : w.now - fc.statTime > w.cache.statInterval
  · rw [if_pos hdue] at hkeeps
    have hcheck : w.cache.checkModified fc (w.syscalls filepath noFaults) =
        ({ fc with statTime := w.now, st := v.stat }, decide (fc.st.mtime ≠ v.mtime)) :=
      checkModified_due hdue hrestat
    by_cases hmtime : fc.st.mtime = v.mtime
    · have hst := hsound.st_eq (hw.distinct filepath) hv hmtime
      rw [show decide (fc.st.mtime ≠ v.mtime) = false by simp [hmtime]] at hcheck
      refine openHit_sound_unmodified hv hstat rfl hread hcheck ⟨⟨v, hv, rfl⟩, fun h => ?_⟩ fun _ => .inr rfl
      exact hsound.coherent (h.trans (by rw [hst]))
    · rw [show decide (fc.st.mtime ≠ v.mtime) by simp [hmtime]] at hcheck
      simp only [hmtime, decide_false, Bool.false_or, Bool.or_eq_true, Bool.and_eq_true, decide_eq_true_eq,
        Bool.not_eq_true'] at hkeeps
      refine openHit_sound_modified hv hstat rfl hread hcheck rfl (fun hneed => ?_) fun hneed hlen => ?_
      · rcases hkeeps with (h | h) | h
        · exact .inl h.2
        · exact .inr h
        · rw [hneed] at h; cases h.1
      · rcases hkeeps with (h | h) | h
        · rw [hneed] at h; cases h.1
        · exact absurd hlen h
        · exact h.2
  · rw [if_neg hdue] at hkeeps
    have hcheck : w.cache.checkModified fc (w.syscalls filepath noFaults) = (fc, false) :=
      checkModified_notDue hdue
    refine openHit_sound_unmodified hv hstat rfl hread hcheck hsound fun hneed => ?_
    simp only [hneed, Bool.not_true, Bool.false_or, Bool.or_eq_true, decide_eq_true_eq] at hkeeps
    exact hkeeps.imp_right fun h => hsound.st_eq (hw.distinct filepath) hv h

theorem created_sound (gmtimeFmt : Int → ByteString) (param : OpenParam)
    (hstat : (w.syscalls filepath noFaults).stat = some st) : SoundEntry gmtimeFmt (w.versions filepath)
        ((newFileCacheT filepath st w.now).load gmtimeFmt filepath param (w.syscalls filepath noFaults)).1 ∧
      (param.needRead → Answered gmtimeFmt (w.versions filepath)
        ((newFileCacheT filepath st w.now).load gmtimeFmt filepath param (w.syscalls filepath noFaults)).2) := by
  obtain ⟨v, hcur, rfl⟩ : ∃ v, w.current filepath = some v ∧ v.stat = st := by
    simpa [syscalls, noFaults] using hstat
  refine load_sound gmtimeFmt filepath param (mem_versions_of_current hcur) rfl (readBytes_noFaults hcur)
    (fun _ => ?_) fun _ hlen => ?_
  · rcases Nat.eq_zero_or_pos v.content.length with h | h
    · exact .inl (by omega)
    · exact .inr (by simp only [newFileCacheT, fileLen]; exact Nat.ne_of_lt h)
  · rw [content_eq_nil rfl]
    exact (length_eq_zero_iff.1 hlen.symm).symm

/-- The part of the invariant that a call of `Open` touches, from the entry that it leaves behind. -/
theorem openFile_sound (hw : CoherentWorld gmtimeFmt w)
    (hkeeps : w.keepsCoherence (.open_ filepath param noFaults)) :
    (∀ node ∈ (w.openFile gmtimeFmt filepath param noFaults).1.nodes,
      SoundEntry gmtimeFmt (w.versions node.1) node.2) ∧ (param.needRead →
      Answered gmtimeFmt (w.versions filepath) (w.openFile gmtimeFmt filepath param noFaults).2) := by
  have hother : ∀ (c : FileCache) (e : FileCacheT), SoundEntry gmtimeFmt (w.versions filepath) e →
      (∀ node ∈ c.nodes, node = (filepath, e) ∨ node.1 ≠ filepath ∧ node ∈ w.cache.nodes) →
      ∀ node ∈ c.nodes, SoundEntry gmtimeFmt (w.versions node.1) node.2 := by
    intro c e he hnodes node hnode
    rcases hnodes node hnode with rfl | ⟨-, hmem⟩
    · exact he
    · exact hw.entries node hmem
  rcases openFile_cases gmtimeFmt w.cache filepath param (w.syscalls filepath noFaults) with
    ⟨-, hc, hfc⟩ | ⟨st, -, hstat, hr, hnodes⟩ | ⟨fc, hfind, hr, hnodes⟩
  · have hcache : (w.openFile gmtimeFmt filepath param noFaults).1 = w.cache := hc
    rw [hcache]
    refine ⟨hw.entries, fun _ e he => ?_⟩
    cases hfc.symm.trans he
  · obtain ⟨he, ha⟩ := created_sound gmtimeFmt param hstat
    exact ⟨hother _ _ he hnodes, fun hneed => by rw [openFile, hr]; exact ha hneed⟩
  · obtain ⟨he, ha⟩ := openHit_sound hw hfind hkeeps
    exact ⟨hother _ _ he hnodes, fun hneed => by rw [openFile, hr]; exact ha hneed⟩

theorem coherent_append (h : w.coherent gmtimeFmt) {r : OpenRecord} {cache : FileCache}
    (hr : r.needRead → ∀ e, r.returned = some e → ∃ v ∈ w.versions r.filepath, e.comesFrom gmtimeFmt v) :
    { w with cache := cache, opens := w.opens ++ [r] }.coherent gmtimeFmt := by
  intro r' hr'
  rcases mem_append.1 hr' with hold | hnew
  · exact h r' hold
  · obtain rfl := mem_singleton.1 hnew
    exact hr

theorem subset_versions_change (w : FileWorld) (filepath : ByteString) (version : Version) (p : ByteString) :
    w.versions p ⊆ update w.versions filepath (version :: w.versions filepath) p := by
  by_cases hp : p = filepath
  · subst hp
    rw [update_self]
    exact subset_cons_self _ _
  · rw [update_of_ne hp]
    exact List.Subset.refl _

theorem coherentWorld_step {w' : FileWorld} {act : FileAct} (hw : CoherentWorld gmtimeFmt w)
    (hfaultless : act.faultless) (hkeeps : w.keepsCoherence act)
    (hs : fileStep gmtimeFmt w act = some w') : CoherentWorld gmtimeFmt w' := by
  cases act with
  | change filepath version =>
    rw [fileStep] at hs
    split_ifs at hs with hnew
    cases hs
    have hsub := subset_versions_change w filepath version
    refine ⟨fun p => ?_, fun node hnode => (hw.entries node hnode).mono (hsub node.1), fun r hr hneed e he => ?_⟩
    · by_cases hp : p = filepath
      · subst hp
        simp only [update_self, map_cons, nodup_cons]
        exact ⟨hnew, hw.distinct p⟩
      · simp only [update_of_ne hp]
        exact hw.distinct p
    · obtain ⟨v, hv, hfrom⟩ := hw.coherent r hr hneed e he
      exact ⟨v, hsub _ hv, hfrom⟩
  | tick seconds =>
    cases hs
    exact ⟨hw.distinct, hw.entries, hw.coherent⟩
  | open_ filepath param faults =>
    obtain rfl : faults = noFaults := by simpa [FileAct.faultless] using hfaultless
    cases hs
    obtain ⟨hentries, hanswered⟩ := openFile_sound hw hkeeps
    refine ⟨hw.distinct, hentries, coherent_append hw.coherent fun hneed e he => ?_⟩
    obtain ⟨fc, hfc, rfl⟩ := map_eq_some_iff.1 he
    exact hanswered hneed fc hfc
  | close | removeExpired =>
    cases hs
    exact ⟨hw.distinct, fun node hnode => hw.entries node (mem_filter.1 hnode).1, hw.coherent⟩

theorem coherentWorld_init {capacity : Nat} {statInterval expiredTime now : Int}
    (h : w = newFileWorld capacity statInterval expiredTime now) : CoherentWorld gmtimeFmt w := by
  subst h
  exact ⟨fun _ => nodup_nil, fun node hnode => (not_mem_nil hnode).elim,
    fun r hr => (not_mem_nil hr).elim⟩

end World

/-- In every run of changes of files, time steps and calls of `Open` that keep to the condition, every
    entry returned to a caller that asked for content has the content and the tags of one version. -/
theorem open_returns_one_version (gmtimeFmt : Int → ByteString) (capacity : Nat) (statInterval expiredTime now : Int)
    {w : FileWorld}
    (h : Reachable (fileStep gmtimeFmt) (fun w act => act.faultless = true ∧ w.keepsCoherence act = true)
      (· = newFileWorld capacity statInterval expiredTime now) w) : w.coherent gmtimeFmt :=
  (h.invariant (I := CoherentWorld gmtimeFmt) (fun _ h0 => coherentWorld_init h0)
    (fun _ _ _ hw hok hs => coherentWorld_step hw hok.1 hok.2 hs)).coherent

def headThenGet : List FileAct :=
  [.change (ascii "/a") ⟨ascii "one", 1⟩, .open_ (ascii "/a") ⟨false, 4096⟩ noFaults,
    .change (ascii "/a") ⟨ascii "three", 2⟩, .tick 11, .open_ (ascii "/a") ⟨true, 4096⟩ noFaults]

theorem open_returns_one_version_head_then_get :
    ∃ w, runFrom (guarded (fileStep decimal) (fun w act => act.faultless = true ∧ w.keepsCoherence act = true))
        (newFileWorld 100 10 60 0) headThenGet = some w ∧
      (w.opens.map OpenRecord.returned).map (Option.map Served.content) = [some [], some (ascii "three")] ∧
      w.coherent decimal := by
  exact exists_run (by decide +kernel) fun w hrun => ⟨of_run hrun (by decide +kernel),
    open_returns_one_version decimal 100 10 60 0
    (Reachable.runGuarded headThenGet (.start rfl) hrun)⟩

/-- The content `"a"` is loaded, the file changes to `"b"`, and when the check is due it is asked for with
    `HEAD` and then with `GET`. -/
def headBetweenGets : List FileAct :=
  [.change (ascii "/a") ⟨ascii "a", 1⟩, .open_ (ascii "/a") ⟨true, 4096⟩ noFaults,
    .change (ascii "/a") ⟨ascii "b", 2⟩, .tick 11, .open_ (ascii "/a") ⟨false, 4096⟩ noFaults,
    .open_ (ascii "/a") ⟨true, 4096⟩ noFaults]

/-- The old content is returned with the tag of the new version. -/
theorem old_content_with_new_etag :
    ∃ w, Reachable (fileStep decimal) (fun _ act => act.faultless = true) (· = newFileWorld 100 10 60 0) w ∧
      ¬ w.coherent decimal := by
  refine exists_reached headBetweenGets rfl (by decide +kernel) fun w _ hrun hcoherent => ?_
  have hversions : w.versions (ascii "/a") = [⟨ascii "b", 2⟩, ⟨ascii "a", 1⟩] := of_run hrun (by decide +kernel)
  have hmem : ⟨ascii "/a", true, some (ascii "a"), some (ascii "b"), none, some ⟨ascii "a", ascii "2", ascii "\"2-1\""⟩⟩ ∈
    w.opens := of_run hrun (by decide +kernel)
  obtain ⟨v, hv, hcontent, htags⟩ := hcoherent _ hmem rfl _ rfl
  rw [hversions] at hv
  rcases mem_cons.1 hv with rfl | hv
  · exact absurd hcontent (by decide)
  · obtain rfl := mem_singleton.1 hv
    exact absurd htags.1 (by decide)

end HvVerified.Http.Proofs
