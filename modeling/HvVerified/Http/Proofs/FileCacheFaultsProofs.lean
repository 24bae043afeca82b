import HvVerified.Http.Proofs.FileCacheProofs

/-!
# The file cache under faults

As long as every `read` delivers the whole file, the content of an entry is at any time the content of a
version of the file, and a call that fails leaves it alone. Each content can then be accounted for with
respect to each failed call: it was there before, or it was read after it.
-/

namespace HvVerified.Http.Proofs

open Base Lib List Option FileWorld FileCacheT

variable {versions : List Version} {r : OpenRecord} {content filepath : ByteString} {opens : List OpenRecord}
  {w w' : FileWorld} {cache : FileCache} {v : Version} {param : OpenParam} {faults : Faults} {fc : FileCacheT}
  {gmtimeFmt : Int → ByteString}

/-! ## Histories -/

theorem split_concat {α : Type} {xs before after : List α} {x y : α} (h : xs ++ [y] = before ++ x :: after) :
    (after = [] ∧ x = y ∧ xs = before) ∨ ∃ after', after = after' ++ [y] ∧ xs = before ++ x :: after' := by
  rcases eq_nil_or_concat after with rfl | ⟨after', z, rfl⟩
  · obtain ⟨rfl, hxy⟩ := append_inj' h rfl
    exact .inl ⟨rfl, (cons.inj hxy).1.symm, rfl⟩
  · rw [concat_eq_append, ← cons_append, ← append_assoc] at h
    obtain ⟨hxs, hyz⟩ := append_inj' h rfl
    obtain rfl := (cons.inj hyz).1
    exact .inr ⟨after', by rw [concat_eq_append], hxs⟩

/-- The content was read completely after the call `r`, or cached completely before it. -/
def Accounted (versions : List Version) (r : OpenRecord) (after : List OpenRecord) (content : ByteString) : Prop :=
  content = [] ∨ (∃ r' ∈ after, r'.filepath = r.filepath ∧ r'.readWhole content) ∨
    (r.cached = some content ∧ ∃ v ∈ versions, v.content = content)

/-- The content is accounted for with respect to every failed call for the path. -/
def AllAccounted (versions : List Version) (opens : List OpenRecord) (filepath content : ByteString) : Prop :=
  ∀ before r after, opens = before ++ r :: after → r.filepath = filepath → r.returned = none →
    Accounted versions r after content

theorem Accounted.mono {versions' : List Version} {after after' : List OpenRecord}
    (h : Accounted versions r after content) (hversions : versions ⊆ versions')
    (hafter : after ⊆ after') : Accounted versions' r after' content := by
  rcases h with h | ⟨r', hr', h⟩ | ⟨hcached, v, hv, h⟩
  · exact .inl h
  · exact .inr (.inl ⟨r', hafter hr', h⟩)
  · exact .inr (.inr ⟨hcached, v, hversions hv, h⟩)

theorem AllAccounted.other (h : AllAccounted versions opens filepath content) (hne : r.filepath ≠ filepath) :
    AllAccounted versions (opens ++ [r]) filepath content := by
  intro before r' after hsplit hpath hnone
  rcases split_concat hsplit with ⟨-, rfl, -⟩ | ⟨after', rfl, hopens⟩
  · exact absurd hpath hne
  · exact (h before r' after' hopens hpath hnone).mono (List.Subset.refl _) (subset_append_left _ _)

theorem AllAccounted.kept (h : AllAccounted versions opens filepath content) (hcached : r.cached = some content)
    (hcontent : content = [] ∨ ∃ v ∈ versions, v.content = content) :
    AllAccounted versions (opens ++ [r]) filepath content := by
  intro before r' after hsplit hpath hnone
  rcases split_concat hsplit with ⟨-, rfl, -⟩ | ⟨after', rfl, hopens⟩
  · exact hcontent.imp_right fun hv => .inr ⟨hcached, hv⟩
  · exact (h before r' after' hopens hpath hnone).mono (List.Subset.refl _) (subset_append_left _ _)

theorem AllAccounted.read {versions : List Version} {opens : List OpenRecord} {r : OpenRecord} {content : ByteString}
    (hread : r.readWhole content) (hsome : r.returned ≠ none) :
    AllAccounted versions (opens ++ [r]) r.filepath content := by
  intro before r' after hsplit hpath hnone
  rcases split_concat hsplit with ⟨-, rfl, -⟩ | ⟨after', rfl, -⟩
  · exact absurd hnone hsome
  · exact .inr (.inl ⟨r, mem_append_right _ mem_cons_self, hpath.symm, hread⟩)

theorem notPoisoned_append (h : w.notPoisoned) (hr : ∀ e, r.returned = some e →
      r.readWhole e.content ∨ AllAccounted (w.versions r.filepath) w.opens r.filepath e.content) :
    { w with cache := cache, opens := w.opens ++ [r] }.notPoisoned := by
  intro before failed between r' after hsplit hpath hnone hneed e he
  have hsplit' : w.opens ++ [r] = (before ++ failed :: between) ++ r' :: after := by
    rw [append_assoc]
    exact hsplit
  rcases split_concat hsplit' with ⟨-, rfl, hopens⟩ | ⟨after', rfl, hopens⟩
  · rcases hr e he with hread | hall
    · exact .inr (.inl ⟨r', mem_append_right _ mem_cons_self, hpath, hread⟩)
    · have := hall before failed between hopens hpath.symm hnone
      rw [hpath] at this
      exact this.mono (List.Subset.refl _) (subset_append_left _ _)
  · rw [append_assoc] at hopens
    exact h before failed between r' after' hopens hpath hnone hneed e he

/-! ## The content of an entry -/

/-- Where the content of an entry comes from after a call of `Open`: it is what the entry had before the
    call, or the call has read it. -/
inductive ContentCase (file : ByteString) (old : ByteString) (e : FileCacheT) (r : OpenResult) : Prop where
  | kept (hcontent : e.content = old) (hfc : ∀ e', r.fc = some e' → e' = e)
  | read (hcontent : e.content = file) (hfc : r.fc = some e) (hdelivered : r.delivered = some file)

theorem load_content (gmtimeFmt : Int → ByteString) (fc : FileCacheT) (filepath : ByteString)
    (param : OpenParam) {sys : Syscalls} (hkind : fc.st.kind = .regular)
    (hsize : param.needRead → fc.st.size = v.content.length) (hread : sys.read v.content.length = some v.content) :
    ContentCase v.content fc.content (fc.load gmtimeFmt filepath param sys).1
        (fc.load gmtimeFmt filepath param sys).2 ∧
      (fc.load gmtimeFmt filepath param sys).1.st = fc.st := by
  have hbytes : param.needRead → (sys.read fc.st.size).map (take fc.st.size) = some v.content := by
    intro hneed
    rw [hsize hneed, hread, map_some, take_length]
  rcases load_cases gmtimeFmt filepath param sys hkind with
    ⟨-, -, he, hfc, -⟩ | ⟨-, hst, -, hcontent, -, hfc, -⟩ | ⟨hneed, -, hshort, -⟩ |
    ⟨bytes, hneed, hbytes', -, hst, -, hcontent, -, hfc, hdelivered⟩
  · rw [he]
    exact ⟨.kept rfl (fun e' h => by cases hfc.symm.trans h), rfl⟩
  · exact ⟨.kept hcontent fun e' h => (some.inj (hfc.symm.trans h)).symm, hst⟩
  · exact absurd (by rw [hbytes hneed, map_some, hsize hneed]) hshort
  · obtain rfl : v.content = bytes := some.inj ((hbytes hneed).symm.trans hbytes')
    exact ⟨.read hcontent hfc hdelivered, hst⟩

theorem checkModified_content (c : FileCache) (fc : FileCacheT) (sys : Syscalls) :
    (c.checkModified fc sys).1.content = fc.content := by
  unfold FileCache.checkModified
  split_ifs <;> simp only [isModified, content, fileLen]

/-! ## Runs with faults -/

structure KeptEntry (w : FileWorld) (filepath : ByteString) (fc : FileCacheT) : Prop where
  st : ∃ v ∈ w.versions filepath, fc.st = v.stat
  content : fc.content = [] ∨ ∃ v ∈ w.versions filepath, v.content = fc.content
  accounted : AllAccounted (w.versions filepath) w.opens filepath fc.content

structure KeptWorld (w : FileWorld) : Prop where
  entries : ∀ node ∈ w.cache.nodes, KeptEntry w node.1 node.2
  notPoisoned : w.notPoisoned

/-- The `st` of an entry after the check is that of a version, and if the entry is read then it has the
    size of the current one. -/
theorem checkModified_st (hcur : w.current filepath = some v) (hst : ∃ v ∈ w.versions filepath, fc.st = v.stat)
    (hfind : w.cache.nodes.find filepath = some fc) (hwhole : w.readsWhole (.open_ filepath param faults)) :
    (∃ v ∈ w.versions filepath, (w.cache.checkModified fc (w.syscalls filepath faults)).1.st = v.stat) ∧
      (param.needRead →
        ((w.cache.checkModified fc (w.syscalls filepath faults)).2 ∨
          (w.cache.checkModified fc (w.syscalls filepath faults)).1.isComplete = false) →
        (w.cache.checkModified fc (w.syscalls filepath faults)).1.st.size = v.content.length) := by
  simp only [readsWhole, hfind, hcur, Bool.and_eq_true, Bool.or_eq_true, Bool.not_eq_true',
    decide_eq_true_eq] at hwhole
  by_cases hchecked : w.now - fc.statTime > w.cache.statInterval ∧ faults.restat = false
  · have hrestat : (w.syscalls filepath faults).restat = some v.stat := by
      simp [syscalls, hchecked.2, hcur]
    rw [checkModified_due hchecked.1 hrestat]
    exact ⟨⟨v, mem_versions_of_current hcur, rfl⟩, fun _ _ => rfl⟩
  · have hunchecked : (w.cache.checkModified fc (w.syscalls filepath faults)).2 = false ∧
        (w.cache.checkModified fc (w.syscalls filepath faults)).1.st = fc.st ∧
        (w.cache.checkModified fc (w.syscalls filepath faults)).1.fileLen = fc.fileLen := by
      by_cases hdue : w.now - fc.statTime > w.cache.statInterval
      · have hrestat : (w.syscalls filepath faults).restat = none := by
          simp [syscalls, Bool.of_not_eq_false fun h => hchecked ⟨hdue, h⟩]
        rw [checkModified_failed hdue hrestat]
        exact ⟨rfl, rfl, rfl⟩
      · rw [checkModified_notDue hdue]
        exact ⟨rfl, rfl, rfl⟩
    obtain ⟨hmodified, hst', hlen⟩ := hunchecked
    rw [hst']
    refine ⟨hst, fun hneed hincomplete => ?_⟩
    rcases hwhole.2 with ((h | h) | h) | h
    · rw [hneed] at h; cases h
    · exact absurd h hchecked
    · have hcomplete : (w.cache.checkModified fc (w.syscalls filepath faults)).1.isComplete := by
        rw [isComplete] at h ⊢
        rw [hst', hlen]
        exact h
      simp [hmodified, hcomplete] at hincomplete
    · exact h

theorem readBytes_whole
    (hcur : w.current filepath = some v) (hwhole : w.readsWhole (.open_ filepath param faults)) :
    (w.syscalls filepath faults).read v.content.length = some v.content := by
  simp only [readsWhole, Bool.and_eq_true, Bool.not_eq_true', decide_eq_true_eq] at hwhole
  simp [syscalls, readBytes, hwhole.1.1, hwhole.1.2, hcur]

theorem openHit_content (gmtimeFmt : Int → ByteString) (hcur : w.current filepath = some v)
    (hst : ∃ v ∈ w.versions filepath, fc.st = v.stat) (hfind : w.cache.nodes.find filepath = some fc)
    (hwhole : w.readsWhole (.open_ filepath param faults)) : ContentCase v.content fc.content
        (w.cache.openHit gmtimeFmt filepath fc param (w.syscalls filepath faults)).1
        (w.cache.openHit gmtimeFmt filepath fc param (w.syscalls filepath faults)).2 ∧
      ∃ v ∈ w.versions filepath,
        (w.cache.openHit gmtimeFmt filepath fc param (w.syscalls filepath faults)).1.st = v.stat := by
  obtain ⟨hst', hsize⟩ := checkModified_st hcur hst hfind hwhole
  have hold := checkModified_content w.cache fc (w.syscalls filepath faults)
  rcases openHit_cases gmtimeFmt w.cache filepath fc param (w.syscalls filepath faults) with
    ⟨-, he, hfc⟩ | ⟨-, -, he, hfc⟩ | ⟨param', he, hr, -, hneed, -⟩
  · rw [he]
    exact ⟨.kept hold (fun e' h => by cases hfc.symm.trans h), hst'⟩
  · rw [he] at hfc ⊢
    exact ⟨.kept hold (fun e' h => (some.inj (hfc.symm.trans h)).symm), hst'⟩
  · obtain ⟨v', hv', hst''⟩ := hst'
    have hread : param'.needRead → param.needRead ∧
        ((w.cache.checkModified fc (w.syscalls filepath faults)).2 ∨
          (w.cache.checkModified fc (w.syscalls filepath faults)).1.isComplete = false) := by
      intro h
      simpa [h] using hneed
    obtain ⟨hcontent, hst'⟩ := load_content gmtimeFmt _ filepath param'
      (show (w.cache.checkModified fc (w.syscalls filepath faults)).1.st.kind = .regular by rw [hst'']; rfl)
      (fun h => hsize (hread h).1 (hread h).2) (readBytes_whole hcur hwhole)
    rw [he, hr]
    rw [hold] at hcontent
    exact ⟨hcontent, v', hv', hst'.trans hst''⟩

theorem created_content (gmtimeFmt : Int → ByteString)
    {st : Stat} (hstat : (w.syscalls filepath faults).stat = some st)
    (hwhole : w.readsWhole (.open_ filepath param faults)) : ∃ v, w.current filepath = some v ∧ v.stat = st ∧
      ContentCase v.content []
        ((newFileCacheT filepath st (w.syscalls filepath faults).now).load gmtimeFmt filepath param
          (w.syscalls filepath faults)).1
        ((newFileCacheT filepath st (w.syscalls filepath faults).now).load gmtimeFmt filepath param
          (w.syscalls filepath faults)).2 ∧
      ((newFileCacheT filepath st (w.syscalls filepath faults).now).load gmtimeFmt filepath param
        (w.syscalls filepath faults)).1.st = st := by
  obtain ⟨v, hcur, rfl⟩ : ∃ v, w.current filepath = some v ∧ v.stat = st := by
    have hif : (if faults.stat then none else (w.current filepath).map Version.stat) = some st := hstat
    split_ifs at hif
    exact map_eq_some_iff.1 hif
  have hempty : (newFileCacheT filepath v.stat (w.syscalls filepath faults).now).content = [] := content_eq_nil rfl
  have hload := load_content gmtimeFmt (newFileCacheT filepath v.stat (w.syscalls filepath faults).now) filepath param rfl
    (fun _ => rfl) (readBytes_whole hcur hwhole)
  rw [hempty] at hload
  exact ⟨v, hcur, rfl, hload⟩

theorem KeptEntry.other (h : KeptEntry w filepath fc) (hne : r.filepath ≠ filepath) (cache : FileCache) :
    KeptEntry { w with cache := cache, opens := w.opens ++ [r] } filepath fc :=
  ⟨h.st, h.content, h.accounted.other hne⟩

/-- The entry that a call leaves behind, when it had the content `old` before. -/
theorem keptEntry_of_contentCase {old : ByteString} {e : FileCacheT} {res : OpenResult}
    (hcur : w.current r.filepath = some v) (hst : ∃ v ∈ w.versions r.filepath, e.st = v.stat)
    (hold : old = [] ∨ ∃ v ∈ w.versions r.filepath, v.content = old)
    (haccounted : old ≠ [] → r.cached = some old ∧ AllAccounted (w.versions r.filepath) w.opens r.filepath old)
    (hfile : r.file = some v.content) (hdelivered : r.delivered = res.delivered)
    (hreturned : r.returned = res.fc.map FileCacheT.served) (h : ContentCase v.content old e res) :
    KeptEntry { w with cache := cache, opens := w.opens ++ [r] } r.filepath e ∧
      ∀ e', r.returned = some e' →
        r.readWhole e'.content ∨ AllAccounted (w.versions r.filepath) w.opens r.filepath e'.content := by
  rcases h with ⟨hcontent, hfc⟩ | ⟨hcontent, hfc, hread⟩
  · subst hcontent
    by_cases hempty : e.content = []
    · have hall : ∀ opens, AllAccounted (w.versions r.filepath) opens r.filepath e.content :=
        fun _ _ _ _ _ _ _ => .inl hempty
      refine ⟨⟨hst, hold, hall _⟩, fun e' he' => .inr ?_⟩
      obtain ⟨fc, hsome, rfl⟩ := map_eq_some_iff.1 (hreturned ▸ he')
      rw [served_content, hfc fc hsome]
      exact hall _
    · obtain ⟨hcached, hall⟩ := haccounted hempty
      refine ⟨⟨hst, hold, hall.kept hcached hold⟩, fun e' he' => .inr ?_⟩
      obtain ⟨fc, hsome, rfl⟩ := map_eq_some_iff.1 (hreturned ▸ he')
      rw [served_content, hfc fc hsome]
      exact hall
  · have hwhole : r.readWhole e.content := by
      rw [hcontent]
      exact ⟨hdelivered.trans hread, hfile⟩
    have hsome : r.returned = some e.served := by rw [hreturned, hfc, map_some]
    refine ⟨⟨hst, .inr ⟨v, mem_versions_of_current hcur, hcontent.symm⟩, .read hwhole (by simp [hsome])⟩,
      fun e' he' => .inl ?_⟩
    obtain rfl := some.inj (hsome.symm.trans he')
    rw [served_content]
    exact hwhole

theorem keptWorld_open (hw : KeptWorld w) (hwhole : w.readsWhole (.open_ filepath param faults)) :
    KeptWorld (w.afterOpen gmtimeFmt filepath param faults) := by
  have hfile : ∀ {v}, w.current filepath = some v →
      (w.record gmtimeFmt filepath param faults).file = some v.content := by
    intro v hcur
    rw [record, hcur]
    rfl
  -- the nodes of the other paths are old ones
  have hnodes : ∀ e, KeptEntry (w.afterOpen gmtimeFmt filepath param faults) filepath e →
      (∀ node ∈ (w.openFile gmtimeFmt filepath param faults).1.nodes,
        node = (filepath, e) ∨ node.1 ≠ filepath ∧ node ∈ w.cache.nodes) →
      ∀ node ∈ (w.openFile gmtimeFmt filepath param faults).1.nodes,
        KeptEntry (w.afterOpen gmtimeFmt filepath param faults) node.1 node.2 := by
    intro e he hmem node hnode
    rcases hmem node hnode with rfl | ⟨hne, hold⟩
    · exact he
    · exact (hw.entries node hold).other (Ne.symm hne) _
  rcases openFile_cases gmtimeFmt w.cache filepath param (w.syscalls filepath faults) with
    ⟨hfind, hc, hfc⟩ | ⟨st, hfind, hstat, hr, hmem⟩ | ⟨fc, hfind, hr, hmem⟩
  · have hcache : (w.afterOpen gmtimeFmt filepath param faults).cache = w.cache := hc
    refine ⟨fun node hnode => ?_, notPoisoned_append hw.notPoisoned fun e he => ?_⟩
    · rw [hcache] at hnode
      exact (hw.entries node hnode).other (Ne.symm (Lru.ne_of_find_eq_none hfind hnode)) _
    · obtain ⟨fc, hsome, -⟩ := map_eq_some_iff.1 he
      cases hfc.symm.trans hsome
  · obtain ⟨v, hcur, rfl, hcontent, hst⟩ := created_content gmtimeFmt hstat hwhole
    rw [← hr] at hcontent
    obtain ⟨hentry, hreturned⟩ := keptEntry_of_contentCase (r := w.record gmtimeFmt filepath param faults) hcur
      ⟨v, mem_versions_of_current hcur, hst⟩ (.inl rfl) (fun h => absurd rfl h) (hfile hcur) rfl rfl hcontent
    exact ⟨hnodes _ hentry hmem, notPoisoned_append hw.notPoisoned hreturned⟩
  · have hold := hw.entries _ (Lru.mem_of_find hfind)
    obtain ⟨v, hcur⟩ : ∃ v, w.current filepath = some v := by
      obtain ⟨v, hv, -⟩ := hold.st
      exact ne_none_iff_exists'.1 fun h => by simp [head?_eq_none_iff.1 h] at hv
    obtain ⟨hcontent, hst⟩ := openHit_content gmtimeFmt hcur hold.st hfind hwhole
    rw [← hr] at hcontent
    have hcached : (w.record gmtimeFmt filepath param faults).cached = some fc.content := by
      rw [record, hfind]
      rfl
    obtain ⟨hentry, hreturned⟩ := keptEntry_of_contentCase (r := w.record gmtimeFmt filepath param faults) hcur
      hst hold.content (fun _ => ⟨hcached, hold.accounted⟩) (hfile hcur) rfl rfl hcontent
    exact ⟨hnodes _ hentry hmem, notPoisoned_append hw.notPoisoned hreturned⟩

theorem KeptWorld.mono (hw : KeptWorld w) (hnodes : w'.cache.nodes ⊆ w.cache.nodes)
    (hopens : w'.opens = w.opens) (hversions : ∀ filepath, w.versions filepath ⊆ w'.versions filepath) :
    KeptWorld w' := by
  refine ⟨fun node hnode => ?_, ?_⟩
  · obtain ⟨⟨v, hv, hst⟩, hcontent, haccounted⟩ := hw.entries node (hnodes hnode)
    refine ⟨⟨v, hversions _ hv, hst⟩, hcontent.imp_right fun h => ?_, ?_⟩
    · obtain ⟨v', hv', h⟩ := h
      exact ⟨v', hversions _ hv', h⟩
    · intro before r after hsplit hpath hnone
      rw [hopens] at hsplit
      exact (haccounted before r after hsplit hpath hnone).mono (hversions _) (List.Subset.refl _)
  · intro before r between r' after hsplit hpath hnone hneed e he
    rw [hopens] at hsplit
    rcases hw.notPoisoned before r between r' after hsplit hpath hnone hneed e he with h | h | ⟨h, v, hv, hcontent⟩
    · exact .inl h
    · exact .inr (.inl h)
    · exact .inr (.inr ⟨h, v, hversions _ hv, hcontent⟩)

theorem keptWorld_step {act : FileAct} (hw : KeptWorld w)
    (hwhole : w.readsWhole act) (hs : fileStep gmtimeFmt w act = some w') : KeptWorld w' := by
  cases act with
  | change filepath version =>
    rw [fileStep] at hs
    split_ifs at hs
    cases hs
    exact hw.mono (List.Subset.refl _) rfl (subset_versions_change w filepath version)
  | tick seconds =>
    cases hs
    exact hw.mono (List.Subset.refl _) rfl fun _ => List.Subset.refl _
  | open_ filepath param faults =>
    cases hs
    exact keptWorld_open hw hwhole
  | close | removeExpired =>
    cases hs
    exact hw.mono (filter_subset_self _) rfl fun _ => List.Subset.refl _

theorem keptWorld_init {capacity : Nat} {statInterval expiredTime now : Int}
    (h : w = newFileWorld capacity statInterval expiredTime now) : KeptWorld w := by
  subst h
  refine ⟨fun node hnode => (not_mem_nil hnode).elim, fun before r between r' after hsplit => ?_⟩
  simp [newFileWorld] at hsplit

/-- In every run of changes of files, time steps and calls of `Open` in which system calls may fail but
    no read is short, a failed call does not make a later one return anything that was not read. -/
theorem failed_open_leaves_no_trace (gmtimeFmt : Int → ByteString) (capacity : Nat)
    (statInterval expiredTime now : Int) {w : FileWorld}
    (h : Reachable (fileStep gmtimeFmt) (fun w act => w.readsWhole act = true)
      (· = newFileWorld capacity statInterval expiredTime now) w) : w.notPoisoned :=
  (h.invariant (I := KeptWorld) (fun _ h0 => keptWorld_init h0)
    (fun _ _ _ hw hok hs => keptWorld_step hw hok hs)).notPoisoned

def openFailsOnce : List FileAct :=
  [.change (ascii "/a") ⟨ascii "one", 1⟩, .open_ (ascii "/a") ⟨true, 4096⟩ { noFaults with open_ := true },
    .open_ (ascii "/a") ⟨true, 4096⟩ noFaults]

theorem failed_open_leaves_no_trace_open :
    ∃ w, runFrom (guarded (fileStep decimal) (fun w act => w.readsWhole act = true))
        (newFileWorld 100 10 60 0) openFailsOnce = some w ∧
      (w.opens.map OpenRecord.returned).map (Option.map Served.content) = [none, some (ascii "one")] ∧
      w.notPoisoned := by
  exact exists_run (by decide +kernel) fun w hrun => ⟨of_run hrun (by decide +kernel),
    failed_open_leaves_no_trace decimal 100 10 60 0
    (Reachable.runGuarded openFailsOnce (.start rfl) hrun)⟩

def readFailsOnce : List FileAct :=
  [.change (ascii "/a") ⟨ascii "one", 1⟩, .open_ (ascii "/a") ⟨true, 4096⟩ { noFaults with read := true },
    .open_ (ascii "/a") ⟨true, 4096⟩ noFaults]

/-- The next call returns zeros: nothing was cached before the failure and nothing was read after it. -/
theorem failed_read_returns_zeros : ∃ w, Reachable (fileStep decimal) Always (· = newFileWorld 100 10 60 0) w ∧
      w.opens = [⟨ascii "/a", true, none, some (ascii "one"), none, none⟩,
        ⟨ascii "/a", true, some [0, 0, 0], some (ascii "one"), none, some ⟨[0, 0, 0], [], []⟩⟩] ∧
      ¬ w.notPoisoned := by
  refine exists_reached readFailsOnce rfl (by decide +kernel) fun w _ hrun =>
    (and_iff_left_of_imp fun hopens h => ?_).2 (of_run hrun (by decide +kernel))
  rcases h [] _ [] _ [] hopens rfl rfl rfl _ rfl with hnil | ⟨r, hr, -, hread⟩ | ⟨hcached, -⟩
  · cases hnil
  · obtain rfl := mem_singleton.1 hr
    cases hread.1
  · cases hcached

end HvVerified.Http.Proofs
