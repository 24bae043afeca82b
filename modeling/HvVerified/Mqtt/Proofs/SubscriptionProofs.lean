import HvVerified.Mqtt.Proofs.TopicTreeProofs

/-!
# Proofs: subscriptions

`Tracks` relates the tree to the calls that were made: a live session has an entry at the levels of a
filter exactly if it has subscribed to it and has not unsubscribed since. `subscriptionAt` views the tree
as a map from filters and keys to a QoS; subscribing again under a key removes other keys as well.
-/

namespace HvVerified.Mqtt

open Base Lib List SubscriptionInfo

variable {session s : SessionId} {w w' : TreeWorld} {act : TreeAct} {calls : List (TreeAct × Bool)}
  {f' : StdString} {key : SessionId × Bool × StdString} {f : StdString} {root : TopicNode}

/-! ## Entries of one node -/

section Entries

variable {live : SessionId → Bool} {sub e : SubscriptionInfo} {entries : List SubscriptionInfo}

theorem mem_removeEntries {shareName : StdString} : e ∈ removeEntries live session shareName entries ↔ e ∈ entries ∧
      ¬ (live e.session ∧ e.session = session ∧ (shareName = [] ∨ e.shareName = shareName)) := by
  simp only [removeEntries, mem_filter, Bool.not_eq_true', ← Bool.not_eq_true, Bool.and_eq_true,
    Bool.or_eq_true, decide_eq_true_eq, and_assoc]

def keptEntries (live : SessionId → Bool) (sub : SubscriptionInfo) (entries : List SubscriptionInfo) :
    List SubscriptionInfo :=
  if ∃ e ∈ entries, e.key = sub.key then removeEntries live sub.session sub.shareName entries else entries

theorem key_ne_of_mem_kept (hlive : live sub.session) (he : e ∈ keptEntries live sub entries) :
    e.key ≠ sub.key := by
  unfold keptEntries at he
  intro hkey
  split_ifs at he with hsame
  · obtain ⟨-, hremoved⟩ := mem_removeEntries.1 he
    obtain ⟨hsession, -, hname⟩ := by simpa [key] using hkey
    exact hremoved ⟨hsession ▸ hlive, hsession, .inr hname⟩
  · exact hsame ⟨e, he, hkey⟩

/-- The test of `add_subscriber` never finds the subscription: what had its key is gone. -/
theorem subscribeEntries_eq (hlive : live sub.session) :
    subscribeEntries live sub entries = keptEntries live sub entries ++ [sub] := by
  have hany : (entries.any fun s => live s.session && s.key = sub.key) ↔
      ∃ e ∈ entries, e.key = sub.key := by
    simp only [any_eq_true, Bool.and_eq_true, decide_eq_true_eq]
    refine exists_congr fun e => and_congr_right fun _ => ?_
    constructor
    · exact fun h => h.2
    · intro hkey
      refine ⟨?_, hkey⟩
      rw [show e.session = sub.session from congrArg Prod.fst hkey]
      exact hlive
  have hkept : (if (entries.any fun s => live s.session && s.key = sub.key) then
      removeEntries live sub.session sub.shareName entries else entries) = keptEntries live sub entries :=
    if_congr hany rfl rfl
  unfold subscribeEntries
  rw [hkept, if_neg]
  intro hnew
  obtain ⟨e, he, hsub⟩ := any_eq_true.1 hnew
  rw [Bool.and_eq_true, decide_eq_true_eq] at hsub
  exact key_ne_of_mem_kept hlive he (hsub.2 ▸ rfl)

theorem mem_of_mem_kept (he : e ∈ keptEntries live sub entries) : e ∈ entries := by
  unfold keptEntries at he
  split_ifs at he
  · exact (mem_removeEntries.1 he).1
  · exact he

theorem mem_kept_of_session_ne (he : e ∈ entries) (hne : e.session ≠ sub.session) :
    e ∈ keptEntries live sub entries := by
  unfold keptEntries
  split_ifs
  · exact mem_removeEntries.2 ⟨he, fun h => hne h.2.1⟩
  · exact he

theorem exists_session_subscribeEntries (hlive : live sub.session) :
    (∃ e ∈ subscribeEntries live sub entries, e.session = s) ↔
      sub.session = s ∨ ∃ e ∈ entries, e.session = s := by
  rw [subscribeEntries_eq hlive]
  constructor
  · rintro ⟨e, he, rfl⟩
    rw [mem_append, mem_singleton] at he
    rcases he with he | rfl
    · exact .inr ⟨e, mem_of_mem_kept he, rfl⟩
    · exact .inl rfl
  · intro h
    by_cases hsession : sub.session = s
    · exact ⟨sub, by simp, hsession⟩
    · obtain ⟨e, he, rfl⟩ := h.resolve_left hsession
      exact ⟨e, mem_append_left _ (mem_kept_of_session_ne he (Ne.symm hsession)), rfl⟩

end Entries

/-! ## The steps of a run -/

theorem treeStep_eq (h : treeStep w act = some w') : act.callable w.live ∧
      w' = { root := (treeCall w.live w.root act).1, live := act.liveAfter w.live,
             calls := w.calls ++ [(act, (treeCall w.live w.root act).2)] } := by
  unfold treeStep at h
  split_ifs at h with hcall
  exact ⟨hcall, (Option.some.inj h).symm⟩

theorem TreeAct.live_of_liveAfter (act : TreeAct) {live : SessionId → Bool}
    (h : act.liveAfter live s) : live s := by
  cases act with
  | expired session =>
    by_cases hs : s = session
    · subst hs
      simp [TreeAct.liveAfter] at h
    · rwa [TreeAct.liveAfter, Function.update_of_ne hs] at h
  | _ => exact h

/-- What a call does to the subscribers at a path: `subscribe` may add one, the others only remove some. -/
theorem entriesAt_call (live : SessionId → Bool) (root : TopicNode) (act : TreeAct) (path : List StdString) :
    (∃ f sub, act = .subscribe f sub ∧ splitTopic f = path ∧ isValidTopicFilter f ∧ HashLast path ∧
      entriesAt path (treeCall live root act).1 = subscribeEntries live sub (entriesAt path root)) ∨
    entriesAt path (treeCall live root act).1 <+ entriesAt path root := by
  cases act with
  | subscribe f sub =>
    rw [treeCall, entriesAt_subscribe]
    split_ifs with hat
    · obtain ⟨hvalid, hlast⟩ := (subscribe_succeeds live).1 hat.2
      exact .inl ⟨f, sub, rfl, hat.1.symm, hvalid, hat.1 ▸ hlast, rfl⟩
    · exact .inr (.refl _)
  | unsubscribe f session shareName =>
    rw [treeCall, entriesAt_unsubscribe]
    split_ifs
    · exact .inr filter_sublist
    · exact .inr (.refl _)
  | setRetained topic payload qos dup =>
    rw [treeCall, entriesAt_setRetainedMessage]
    exact .inr (.refl _)
  | clearRetained topic =>
    rw [treeCall, entriesAt_clearRetainedMessage]
    exact .inr (.refl _)
  | cleanExpired =>
    rw [treeCall, entriesAt_cleanExpired]
    exact .inr filter_sublist
  | expired session => exact .inr (.refl _)

/-- Entries stand only at paths of a kind that the accepted filters have. -/
theorem entries_call {P : List StdString → Prop}
    (hP : ∀ f, isValidTopicFilter f → HashLast (splitTopic f) → P (splitTopic f))
    {live : SessionId → Bool} (h : ∀ path, entriesAt path root ≠ [] → P path) (act : TreeAct) :
    ∀ path, entriesAt path (treeCall live root act).1 ≠ [] → P path := by
  intro path hpath
  rcases entriesAt_call live root act path with ⟨f, sub, -, rfl, hvalid, hlast, -⟩ | hsub
  · exact hP f hvalid hlast
  · exact h path fun hnil => hpath (sublist_nil.1 (hnil ▸ hsub))

theorem EntriesHashLast.call {live : SessionId → Bool} (h : EntriesHashLast root)
    (act : TreeAct) : EntriesHashLast (treeCall live root act).1 :=
  entries_call (fun _ _ hlast => hlast) h act

theorem entriesHashLast_new (name : StdString) : EntriesHashLast (.new name) := by
  intro path hpath
  exact absurd (subscribersField.valueAt_new name path) hpath

/-! ## The subscribers of a topic -/

/-- The session has subscribed to the filter, and has not unsubscribed since. -/
def Subscribed (calls : List (TreeAct × Bool)) (f : StdString) (s : SessionId) : Prop :=
  Since (fun call => ∃ sub, call = (TreeAct.subscribe f sub, true) ∧ sub.session = s)
    (fun call => ∃ shareName, call = (TreeAct.unsubscribe f s shareName, true)) calls

/-- No share names are used. -/
def DefaultArgs (_ : TreeWorld) : TreeAct → Prop
  | .subscribe _ sub => sub.isShared = false ∧ sub.shareName = []
  | .unsubscribe _ _ shareName => shareName = []
  | _ => True

/-- The entries of the tree are the subscriptions that the calls amount to. -/
structure Tracks (w : TreeWorld) : Prop where
  hashLast : EntriesHashLast w.root
  plain : ∀ path, ∀ sub ∈ entriesAt path w.root, sub.isShared = false
  entries : ∀ s path, w.live s →
    ((∃ sub ∈ entriesAt path w.root, sub.session = s) ↔ ∃ f, splitTopic f = path ∧ Subscribed w.calls f s)

theorem subscribed_append_other {call : TreeAct × Bool} (h : call.2 → (∀ f sub, call.1 ≠ .subscribe f sub) ∧
      ∀ f session shareName, call.1 ≠ .unsubscribe f session shareName)
    (f : StdString) (s : SessionId) : Subscribed (calls ++ [call]) f s ↔ Subscribed calls f s := by
  rw [Subscribed, since_append_singleton]
  constructor
  · rintro (⟨sub, rfl, -⟩ | ⟨hcalls, -⟩)
    · exact absurd rfl ((h rfl).1 f sub)
    · exact hcalls
  · intro hcalls
    refine .inr ⟨hcalls, ?_⟩
    rintro ⟨shareName, rfl⟩
    exact (h rfl).2 f s shareName rfl

theorem subscribed_append_subscribe {sub : SubscriptionInfo}
    : Subscribed (calls ++ [(.subscribe f sub, true)]) f' s ↔
      (f' = f ∧ sub.session = s) ∨ Subscribed calls f' s := by
  rw [Subscribed, since_append_singleton]
  refine or_congr ?_ (and_iff_left ?_)
  · constructor
    · rintro ⟨sub', heq, rfl⟩
      obtain ⟨rfl, rfl⟩ := by simpa using heq
      exact ⟨rfl, rfl⟩
    · rintro ⟨rfl, rfl⟩
      exact ⟨sub, rfl, rfl⟩
  · rintro ⟨shareName, heq⟩
    simp at heq

theorem subscribed_append_unsubscribe : Subscribed (calls ++ [(.unsubscribe f session [], true)]) f' s ↔
      Subscribed calls f' s ∧ ¬ (f' = f ∧ s = session) := by
  rw [Subscribed, since_append_singleton]
  constructor
  · rintro (⟨sub, heq, -⟩ | ⟨hcalls, hnot⟩)
    · simp at heq
    · refine ⟨hcalls, ?_⟩
      rintro ⟨rfl, rfl⟩
      exact hnot ⟨[], rfl⟩
  · rintro ⟨hcalls, hnot⟩
    refine .inr ⟨hcalls, ?_⟩
    rintro ⟨shareName, heq⟩
    obtain ⟨rfl, rfl, -⟩ := by simpa using heq
    exact hnot ⟨rfl, rfl⟩

theorem Tracks.of_same (h : Tracks w) (hlast : EntriesHashLast w'.root)
    (hsub : ∀ path, ∀ e ∈ entriesAt path w'.root, e ∈ entriesAt path w.root)
    (hkeep : ∀ path, ∀ e ∈ entriesAt path w.root, w'.live e.session → e ∈ entriesAt path w'.root)
    (hlive : ∀ s, w'.live s → w.live s)
    (hcalls : ∀ f s, Subscribed w'.calls f s ↔ Subscribed w.calls f s) : Tracks w' := by
  refine ⟨hlast, fun path e he => h.plain path e (hsub path e he), ?_⟩
  intro s path hs
  simp only [hcalls]
  rw [← h.entries s path (hlive s hs)]
  constructor
  · rintro ⟨e, he, rfl⟩
    exact ⟨e, hsub path e he, rfl⟩
  · rintro ⟨e, he, rfl⟩
    exact ⟨e, hkeep path e he hs, rfl⟩

theorem tracks_subscribe (h : Tracks w) {sub : SubscriptionInfo}
    (hlive : w.live sub.session) (hargs : sub.isShared = false) : Tracks { w with
      root := (subscribe w.live f sub w.root).1
      calls := w.calls ++ [(.subscribe f sub, (subscribe w.live f sub w.root).2)] } := by
  have hentries := fun path => entriesAt_subscribe w.live path w.root f sub
  cases hok : (subscribe w.live f sub w.root).2 with
  | false =>
    simp only [hok, and_false, Bool.false_eq_true, if_false] at hentries
    refine h.of_same (h.hashLast.call (.subscribe f sub)) ?_ ?_ (fun s hs => hs) ?_
    · intro path e he
      rwa [hentries] at he
    · intro path e he _
      rwa [hentries]
    · exact subscribed_append_other (by simp)
  | true =>
    simp only [hok, and_true] at hentries
    refine ⟨h.hashLast.call (.subscribe f sub), ?_, ?_⟩
    · intro path e he
      rw [hentries] at he
      split_ifs at he
      · rw [subscribeEntries_eq hlive, mem_append, mem_singleton] at he
        rcases he with he | rfl
        · exact h.plain path e (mem_of_mem_kept he)
        · exact hargs
      · exact h.plain path e he
    · intro s path hs
      have hbefore := h.entries s path hs
      simp only [subscribed_append_subscribe, hentries, and_or_left, exists_or, ← hbefore]
      by_cases hpath : path = splitTopic f
      · rw [if_pos hpath, exists_session_subscribeEntries hlive]
        refine or_congr_left ⟨fun hsession => ⟨f, hpath.symm, rfl, hsession⟩, ?_⟩
        rintro ⟨f', -, -, hsession⟩
        exact hsession
      · rw [if_neg hpath]
        refine (or_iff_right ?_).symm
        rintro ⟨f', rfl, rfl, -⟩
        exact hpath rfl

theorem tracks_unsubscribe (h : Tracks w) : Tracks { w with
      root := (unsubscribe w.live f session [] w.root).1
      calls := w.calls ++ [(.unsubscribe f session [], (unsubscribe w.live f session [] w.root).2)] } := by
  have hentries := fun path => entriesAt_unsubscribe w.live path w.root f session []
  cases hok : (unsubscribe w.live f session [] w.root).2 with
  | false =>
    simp only [hok, and_false, Bool.false_eq_true, if_false] at hentries
    refine h.of_same (h.hashLast.call (.unsubscribe f session [])) ?_ ?_ (fun s hs => hs) ?_
    · intro path e he
      rwa [hentries] at he
    · intro path e he _
      rwa [hentries]
    · exact subscribed_append_other (by simp)
  | true =>
    simp only [hok, and_true] at hentries
    have hmem : ∀ path e, e ∈ entriesAt path (unsubscribe w.live f session [] w.root).1 ↔
        e ∈ entriesAt path w.root ∧
          ¬ (path = splitTopic f ∧ w.live e.session ∧ e.session = session) := by
      intro path e
      rw [hentries]
      split_ifs with hpath
      · rw [mem_removeEntries]
        simp [hpath]
      · simp [hpath]
    refine ⟨h.hashLast.call (.unsubscribe f session []), ?_, ?_⟩
    · intro path e he
      exact h.plain path e ((hmem path e).1 he).1
    · intro s path hs
      have hbefore := h.entries s path hs
      simp only [subscribed_append_unsubscribe, hmem]
      constructor
      · rintro ⟨e, ⟨he, hkept⟩, rfl⟩
        obtain ⟨f', hf', hcalls⟩ := hbefore.1 ⟨e, he, rfl⟩
        refine ⟨f', hf', hcalls, ?_⟩
        rintro ⟨rfl, hsession⟩
        exact hkept ⟨hf'.symm, hs, hsession⟩
      · rintro ⟨f', hf', hcalls, hnot⟩
        obtain ⟨e, he, rfl⟩ := hbefore.2 ⟨f', hf', hcalls⟩
        refine ⟨e, ⟨he, ?_⟩, rfl⟩
        rintro ⟨hpath, -, hsession⟩
        exact hnot ⟨splitTopic_injective (hf'.trans hpath), hsession⟩

theorem tracks_step (h : Tracks w) (hok : DefaultArgs w act) (hs : treeStep w act = some w') : Tracks w' := by
  obtain ⟨hcall, rfl⟩ := treeStep_eq hs
  have hbefore := fun s => @TreeAct.live_of_liveAfter s act w.live
  have hentries := entriesAt_call w.live w.root act
  cases act with
  | subscribe f sub => exact tracks_subscribe h hcall hok.1
  | unsubscribe f session shareName =>
    obtain rfl : shareName = [] := hok
    exact tracks_unsubscribe h
  | setRetained | clearRetained | cleanExpired | expired =>
    refine h.of_same (h.hashLast.call _) ?_ ?_ hbefore (subscribed_append_other (by simp))
    · intro path e he
      rcases hentries path with ⟨f, sub, hact, -⟩ | hsub
      · cases hact
      · exact hsub.subset he
    · intro path e he hlive
      simpa [treeCall, entriesAt_setRetainedMessage, entriesAt_clearRetainedMessage, entriesAt_cleanExpired,
        hbefore _ hlive] using he

theorem tracks_new : Tracks {} := by
  refine ⟨entriesHashLast_new _, ?_, ?_⟩
  · intro path sub hsub
    rw [entriesAt, subscribersField.valueAt_new] at hsub
    simp [subscribersField] at hsub
  · intro s path _
    constructor
    · rintro ⟨sub, hsub, -⟩
      rw [entriesAt, subscribersField.valueAt_new] at hsub
      simp [subscribersField] at hsub
    · rintro ⟨f, -, hcalls⟩
      exact absurd hcalls not_since_nil

instance (w : TreeWorld) : DecidablePred (DefaultArgs w)
  | .subscribe _ sub => inferInstanceAs (Decidable (sub.isShared = false ∧ sub.shareName = []))
  | .unsubscribe _ _ shareName => inferInstanceAs (Decidable (shareName = []))
  | .setRetained _ _ _ _ | .clearRetained _ | .cleanExpired | .expired _ => isTrue trivial

/-- The QoS of the subscription to a filter under a key. -/
def subscriptionAt (root : TopicNode) (f : StdString) (key : SessionId × Bool × StdString) : Option Nat :=
  ((entriesAt (splitTopic f) root).find? fun e => e.key = key).map qos

/-- No session has two entries at a path. -/
def KeysNodup (root : TopicNode) : Prop :=
  ∀ path, ((entriesAt path root).map SubscriptionInfo.key).Nodup

theorem keptEntries_sublist (live : SessionId → Bool) (sub : SubscriptionInfo)
    (entries : List SubscriptionInfo) : (keptEntries live sub entries).Sublist entries := by
  unfold keptEntries
  split_ifs
  · exact filter_sublist
  · exact List.Sublist.refl _

theorem KeysNodup.call {live : SessionId → Bool} (h : KeysNodup root) {act : TreeAct}
    (hcall : act.callable live) : KeysNodup (treeCall live root act).1 := by
  intro path
  rcases entriesAt_call live root act path with ⟨f, sub, rfl, -, -, -, hentries⟩ | hsub
  · rw [hentries, subscribeEntries_eq hcall, map_append, map_singleton]
    refine nodup_append.2 ⟨(h path).sublist ((keptEntries_sublist live sub _).map _), by simp, ?_⟩
    intro key hmem key' hkey'
    obtain ⟨e, he, rfl⟩ := mem_map.1 hmem
    rw [mem_singleton.1 hkey']
    exact key_ne_of_mem_kept hcall he
  · exact (h path).sublist (hsub.map _)

theorem keysNodup_of_reachable (h : Reachable treeStep Always (· = {}) w) : KeysNodup w.root := by
  apply h.invariant (I := fun w => KeysNodup w.root)
  · rintro w rfl path
    rw [entriesAt, subscribersField.valueAt_new]
    exact nodup_nil
  · intro w act w' hw _ hs
    obtain ⟨hcall, rfl⟩ := treeStep_eq hs
    exact hw.call hcall

theorem find?_filter_key {p : SubscriptionInfo → Bool} {kept : Prop}
    [Decidable kept] (h : ∀ e : SubscriptionInfo, e.key = key → (p e ↔ kept))
    (entries : List SubscriptionInfo) : ((entries.filter p).find? fun e => e.key = key) =
      if kept then entries.find? fun e => e.key = key else none := by
  rw [find?_filter]
  split_ifs with hkept
  · congr 1
    funext e
    by_cases hkey : e.key = key
    · simp [hkey, (h e hkey).2 hkept]
    · simp [hkey]
  · refine find?_eq_none.2 fun e _ => ?_
    intro he
    simp only [decide_eq_true_eq] at he
    exact hkept ((h e he.2).1 he.1)

theorem subscriptionAt_eq_none :
    subscriptionAt root f key = none ↔ ∀ e ∈ entriesAt (splitTopic f) root, e.key ≠ key := by
  simp [subscriptionAt]

/-- The keys that `remove_subscriber` drops for a subscription. -/
def RemovedWith (sub : SubscriptionInfo) (key : SessionId × Bool × StdString) : Prop :=
  key.1 = sub.session ∧ (sub.shareName = [] ∨ key.2.2 = sub.shareName)

instance (sub : SubscriptionInfo) : DecidablePred (RemovedWith sub) := fun key =>
  inferInstanceAs (Decidable (key.1 = sub.session ∧ (sub.shareName = [] ∨ key.2.2 = sub.shareName)))

section Subscribe

variable {live : SessionId → Bool} {root : TopicNode} {f : StdString} {sub : SubscriptionInfo}

theorem find?_kept (hlive : live sub.session) (key : SessionId × Bool × StdString)
    (entries : List SubscriptionInfo) : ((keptEntries live sub entries).find? fun e => e.key = key) =
      if (∃ e ∈ entries, e.key = sub.key) ∧ RemovedWith sub key then none
      else entries.find? fun e => e.key = key := by
  unfold keptEntries
  by_cases hsame : ∃ e ∈ entries, e.key = sub.key
  · have hfilter : ∀ e : SubscriptionInfo, e.key = key →
        ((!(live e.session && decide (e.session = sub.session) &&
          (decide (sub.shareName = []) || decide (e.shareName = sub.shareName)))) ↔
          ¬ RemovedWith sub key) := by
      rintro e rfl
      simp only [Bool.not_eq_true', ← Bool.not_eq_true, Bool.and_eq_true, Bool.or_eq_true,
        decide_eq_true_eq]
      refine not_congr ?_
      constructor
      · rintro ⟨⟨-, hsession⟩, hname⟩
        exact ⟨hsession, hname⟩
      · rintro ⟨hsession, hname⟩
        exact ⟨⟨(congrArg live hsession).trans hlive, hsession⟩, hname⟩
    rw [if_pos hsame, removeEntries, find?_filter_key hfilter, ite_not]
    exact if_congr (and_iff_right hsame).symm rfl rfl
  · rw [if_neg hsame, if_neg fun h => hsame h.1]

theorem subscriptionAt_subscribe (hlive : live sub.session)
    (hok : (subscribe live f sub root).2) (f' : StdString) (key : SessionId × Bool × StdString) :
    subscriptionAt (subscribe live f sub root).1 f' key =
      if f' = f ∧ key = sub.key then some sub.qos
      else if f' = f ∧ (∃ e ∈ entriesAt (splitTopic f) root, e.key = sub.key) ∧ RemovedWith sub key then none
      else subscriptionAt root f' key := by
  by_cases hf : f' = f
  · subst hf
    rw [subscriptionAt, entriesAt_subscribe, if_pos ⟨rfl, hok⟩, subscribeEntries_eq hlive,
      find?_append]
    by_cases hkey : key = sub.key
    · subst hkey
      have hnone : ((keptEntries live sub (entriesAt (splitTopic f') root)).find? fun e =>
          e.key = sub.key) = none := by
        refine find?_eq_none.2 fun e he => ?_
        rw [decide_eq_true_eq]
        exact key_ne_of_mem_kept hlive he
      simp [hnone]
    · have hlast : ([sub].find? fun e => e.key = key) = none := by
        simp [Ne.symm hkey]
      have hown : ¬ (f' = f' ∧ key = sub.key) := fun h => hkey h.2
      rw [hlast, Option.or_none, find?_kept hlive, if_neg hown]
      by_cases hremoved : (∃ e ∈ entriesAt (splitTopic f') root, e.key = sub.key) ∧ RemovedWith sub key
      · rw [if_pos hremoved, if_pos ⟨rfl, hremoved⟩]
        rfl
      · rw [if_neg hremoved, if_neg fun h => hremoved h.2]
        rfl
  · have hpath : ¬ (splitTopic f' = splitTopic f ∧ (subscribe live f sub root).2) :=
      fun h => hf (splitTopic_injective h.1)
    rw [subscriptionAt, entriesAt_subscribe, if_neg hpath, if_neg fun h => hf h.1, if_neg fun h => hf h.1]
    rfl

end Subscribe

/-- In every reachable tree a successful `subscribe` sets its own key and no other exactly if the key
    is new, or the session has no other subscription to the filter that `remove_subscriber` takes along:
    any other if the share name is empty, one with the same share name otherwise. -/
theorem subscribe_sets_one_key_iff {w : TreeWorld} (h : Reachable treeStep Always (· = {}) w)
    {f : StdString} {sub : SubscriptionInfo} (hlive : w.live sub.session = true)
    (hok : (subscribe w.live f sub w.root).2 = true) : KeysNodup w.root ∧
    ((∀ f' key, subscriptionAt (subscribe w.live f sub w.root).1 f' key =
        if f' = f ∧ key = sub.key then some sub.qos else subscriptionAt w.root f' key) ↔
      (subscriptionAt w.root f sub.key = none ∨
        ∀ isShared shareName, (sub.shareName = [] ∨ shareName = sub.shareName) →
          (isShared, shareName) ≠ (sub.isShared, sub.shareName) →
          subscriptionAt w.root f (sub.session, isShared, shareName) = none)) := by
  refine ⟨keysNodup_of_reachable h, ?_⟩
  have hafter := subscriptionAt_subscribe hlive hok
  constructor
  · intro hmap
    by_cases hsame : ∃ e ∈ entriesAt (splitTopic f) w.root, e.key = sub.key
    · refine .inr fun isShared shareName hname hne => ?_
      have hkey : (sub.session, isShared, shareName) ≠ sub.key := by
        intro heq
        exact hne (congrArg Prod.snd heq)
      have hremoved : RemovedWith sub (sub.session, isShared, shareName) := ⟨rfl, hname⟩
      rw [← (hmap f (sub.session, isShared, shareName)).trans (if_neg fun h => hkey h.2), hafter,
        if_neg fun h => hkey h.2, if_pos ⟨rfl, hsame, hremoved⟩]
    · refine .inl (subscriptionAt_eq_none.2 fun e he hkey => hsame ⟨e, he, hkey⟩)
  · rintro hcond f' ⟨session, isShared, shareName⟩
    rw [hafter]
    by_cases hown : f' = f ∧ (session, isShared, shareName) = sub.key
    · rw [if_pos hown, if_pos hown]
    split_ifs with hremoved
    · obtain ⟨rfl, ⟨e, he, hkey⟩, hsession, hname⟩ := hremoved
      obtain rfl : session = sub.session := hsession
      rcases hcond with hnone | hothers
      · exact absurd hkey (subscriptionAt_eq_none.1 hnone e he)
      · refine (hothers isShared shareName hname ?_).symm
        intro heq
        exact hown ⟨rfl, by rw [key, ← heq]⟩
    · rfl

/-- Session 0 changes the QoS of its only subscription to `a`. -/
theorem subscribe_sets_one_key_again : ∃ w, Reachable treeStep Always (· = {}) w ∧
    subscriptionAt w.root [97] (0, false, []) = some 0 ∧
    ∀ f' key, subscriptionAt (subscribe w.live [97] { session := 0, qos := 2 } w.root).1 f' key =
      if f' = [97] ∧ key = (0, false, []) then some 2 else subscriptionAt w.root f' key := by
  refine exists_reached [.subscribe [97] { session := 0, qos := 0 }] rfl (by decide +kernel) fun w hreach hrun =>
    ⟨of_run hrun (by decide +kernel), ?_⟩
  obtain ⟨hlive, hok, hentries⟩ : w.live 0 ∧ (subscribe w.live [97] { session := 0, qos := 2 } w.root).2 ∧
    entriesAt (splitTopic [97]) w.root = [{ session := 0, qos := 0 }] := of_run hrun (by decide +kernel)
  refine (@subscribe_sets_one_key_iff w hreach [97] { session := 0, qos := 2 } hlive hok).2.2 (.inr ?_)
  intro isShared shareName _ hne
  refine subscriptionAt_eq_none.2 fun e he hkey => ?_
  obtain rfl : e = { session := 0, qos := 0 } := by simpa [hentries] using he
  exact hne (congrArg Prod.snd hkey).symm

/-- Session 0 has a plain and a shared subscription to `a`. Subscribing to the plain one again makes
    the shared one disappear. -/
theorem subscribe_removes_shared_key : ∃ w, Reachable treeStep Always (· = {}) w ∧ w.live 0 = true ∧
    (subscribe w.live [97] { session := 0, qos := 2 } w.root).2 ∧
    subscriptionAt w.root [97] (0, true, [103]) = some 1 ∧
    subscriptionAt (subscribe w.live [97] { session := 0, qos := 2 } w.root).1 [97] (0, true, [103]) = none := by
  exact exists_reached [.subscribe [97] { session := 0, qos := 0 },
    .subscribe [97] { session := 0, qos := 1, isShared := true, shareName := [103] }] rfl (by decide +kernel)
    fun w _ hrun => of_run hrun (by decide +kernel)

end HvVerified.Mqtt
