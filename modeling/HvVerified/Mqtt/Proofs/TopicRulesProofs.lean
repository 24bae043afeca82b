import HvVerified.Mqtt.Proofs.RetainedProofs

/-!
# Proofs: what the tree does not check

`is_valid_topic` stops at the level `$share`, `get_or_create_node` creates nodes before it finds that a filter is
wrong, and `collect_subscribers` treats topics that begin with `$` like all others.
-/

namespace HvVerified.Mqtt

open Base Lib List TopicNode TopicChildren

variable {w w' : TreeWorld} {live : SessionId → Bool} {root : TopicNode}

/-! ## Rejected subscriptions -/

theorem TopicNode.setChildren_eq_self {node : TopicNode} {children : TopicChildren} :
    node.setChildren children = node ↔ children = node.children := by
  obtain ⟨name, subscribers, retained, children'⟩ := node
  simp [TopicNode.setChildren, TopicNode.children]

theorem TopicChildren.set_eq_self {level : StdString} {node child : TopicNode} : ∀ {children : TopicChildren},
    children.find level = some child → (children.set level node = children ↔ node = child)
  | .nil, h => by simp [TopicChildren.find] at h
  | .cons level' node' rest, h => by
    rw [TopicChildren.find] at h
    rw [set]
    split_ifs at h ⊢ with hl
    · obtain rfl := Option.some.inj h
      simp
    · simp [set_eq_self h]

/-- The loop stops at a `#` that is not the last level, and leaves the nodes it has created before. -/
theorem withNodeLoop_rejected {f : TopicNode → TopicNode} {tokens : List StdString} : ∀ {node : TopicNode},
    ¬ HashLast tokens →
    ((withNodeLoop true f tokens node).1 = node ↔ (node.nodeAt (tokens.takeWhile (· ≠ hashLevel))).isSome) := by
  induction tokens with
  | nil => exact fun h => absurd hashLast_nil h
  | cons token tokens ih =>
    intro node hlast
    rw [hashLast_cons] at hlast
    rw [withNodeLoop]
    by_cases htoken : token = hashLevel
    · have htokens : tokens ≠ [] := by
        rintro rfl
        exact hlast ⟨fun _ => rfl, hashLast_nil⟩
      simp [htoken, htokens, nodeAt]
    · have hrest : ¬ HashLast tokens := fun h => hlast ⟨fun h => absurd h htoken, h⟩
      have htake : (token :: tokens).takeWhile (· ≠ hashLevel) = token :: tokens.takeWhile (· ≠ hashLevel) :=
        takeWhile_cons_of_pos (by simp [htoken])
      rw [if_neg (fun h => htoken h.1), htake, nodeAt]
      cases hfind : node.children.find token with
      | none =>
        simp only [if_true, setChildren_eq_self]
        refine iff_of_false (fun h => ?_) (by simp)
        have hset := find_set_self token (withNodeLoop true f tokens (.new token)).1 node.children
        rw [h, hfind] at hset
        cases hset
      | some child => simp [setChildren_eq_self, set_eq_self hfind, ih hrest]

/-- A `subscribe` that returns false has changed nothing precisely if the filter is not valid or the levels
    before its first `#` had their nodes before. -/
theorem rejected_subscription_iff (live : SessionId → Bool) (root : TopicNode) {f : StdString} {sub : SubscriptionInfo}
    (h : (subscribe live f sub root).2 = false) :
    (subscribe live f sub root).1 = root ∧ getStatistics (subscribe live f sub root).1 = getStatistics root ↔
      isValidTopicFilter f = false ∨ (root.nodeAt ((splitTopic f).takeWhile (· ≠ hashLevel))).isSome = true := by
  have hrejected := (subscribe_succeeds live).not.1 (Bool.eq_false_iff.1 h)
  have hsame : (subscribe live f sub root).1 = root ↔
      isValidTopicFilter f = false ∨ (root.nodeAt ((splitTopic f).takeWhile (· ≠ hashLevel))).isSome := by
    cases hvalid : isValidTopicFilter f with
    | false => simp [subscribe, hvalid]
    | true =>
      have hlast : ¬ HashLast (splitTopic f) := fun hlast => hrejected ⟨hvalid, hlast⟩
      have hne : splitTopic f ≠ [] := fun hnil => hlast (hnil ▸ hashLast_nil)
      simp [subscribe, withNode, hvalid, hne, withNodeLoop_rejected hlast]
  rw [← hsame]
  exact and_iff_left_of_imp fun h => by rw [h]

/-- `$share/g/#/x` is rejected without a trace if there is a subscription to `$share/g/y`. -/
theorem rejected_subscription_no_trace : ∃ root : TopicNode,
    (subscribe (fun _ => true) (shareLevel ++ [47, 103, 47, 121]) ⟨0, 0, false, []⟩ (.new [47])).1 = root ∧
    getStatistics root = ⟨4, 1, 0, 3⟩ ∧
    (subscribe (fun _ => true) (shareLevel ++ [47, 103, 47, 35, 47, 120]) ⟨1, 0, false, []⟩ root).1 = root :=
  ⟨_, rfl, by decide +kernel, ((rejected_subscription_iff _ _ (by decide +kernel)).2 (.inr (by decide +kernel))).1⟩

/-- `$share/g/#/x` is rejected after the nodes of `$share` and `g` have been created. -/
theorem rejected_subscription_leaves_nodes :
    (subscribe (fun _ => true) (shareLevel ++ [47, 103, 47, 35, 47, 120]) ⟨0, 0, false, []⟩ (.new [47])).2 = false ∧
    getStatistics (.new [47]) = ⟨1, 0, 0, 0⟩ ∧
    getStatistics (subscribe (fun _ => true) (shareLevel ++ [47, 103, 47, 35, 47, 120]) ⟨0, 0, false, []⟩ (.new [47])).1 =
      ⟨3, 0, 0, 2⟩ := by decide +kernel

/-! ## Topics with wildcards -/

/-- The text has no wildcard characters. -/
def WildcardFree (text : StdString) : Prop := ∀ c ∈ text, c ≠ 43 ∧ c ≠ 35

theorem wildcardFree_joinTopic : ∀ levels : List StdString,
    WildcardFree (joinTopic levels) ↔ ∀ level ∈ levels, WildcardFree level
  | [] => by simp [WildcardFree, joinTopic]
  | [level] => by simp [joinTopic_singleton]
  | level :: next :: levels => by
    have ih := wildcardFree_joinTopic (next :: levels)
    rw [joinTopic_cons_cons, forall_mem_cons, ← ih]
    unfold WildcardFree
    rw [forall_mem_append, forall_mem_cons]
    exact and_congr_right fun _ => and_iff_right (by decide)

theorem wildcardFree_of_valid {level : StdString} (h : isValidTopicLevel level false) : WildcardFree level := by
  unfold isValidTopicLevel at h
  split_ifs at h with hnil hall hany
  · simp [hnil, WildcardFree]
  · simp at hall
  · intro c hc
    simp_all

theorem wildcardFree_of_loop {tokens : List StdString} (h : isValidTopicLoop false tokens) :
    ∀ level ∈ tokens, WildcardFree level := by
  induction tokens with
  | nil => simp
  | cons token tokens ih =>
    simp only [isValidTopicLoop, Bool.and_eq_true] at h
    exact forall_mem_cons.2 ⟨wildcardFree_of_valid h.1.1, ih h.2⟩

/-- A topic that `is_valid_topic` accepts has no wildcards precisely if there are none behind `$share`. -/
theorem wildcardFree_iff {topic : StdString} (h : isValidTopic topic false) : WildcardFree topic ↔
      ((splitTopic topic).head? = some shareLevel → ∀ level ∈ (splitTopic topic).tail, WildcardFree level) := by
  have hjoin := wildcardFree_joinTopic (splitTopic topic)
  rw [joinTopic_splitTopic] at hjoin
  rw [hjoin]
  unfold isValidTopic at h
  split_ifs at h
  cases hsplit : splitTopic topic with
  | nil => simp
  | cons token tokens =>
    simp only [hsplit, Bool.and_eq_true] at h
    rw [forall_mem_cons, and_iff_right (wildcardFree_of_valid h.1.1), head?_cons, tail_cons, Option.some.injEq]
    by_cases hshare : token = shareLevel
    · simp [hshare]
    · rw [if_neg hshare] at h
      exact iff_of_true (wildcardFree_of_loop h.2) fun heq => absurd heq hshare

/-- The call does not store a message at or below a node named `+` or `#`. -/
def StoresPlain (_ : TreeWorld) : TreeAct → Prop
  | .setRetained topic payload _ _ => isValidTopic topic false → HashLast (splitTopic topic) → payload ≠ [] →
      PlainLevels (splitTopic topic)
  | _ => True

theorem retainedPlain_step {act : TreeAct} (h : RetainedPlain w.root) (hok : StoresPlain w act)
    (hs : treeStep w act = some w') : RetainedPlain w'.root := by
  obtain ⟨-, rfl⟩ := treeStep_eq hs
  intro path message hmessage
  refine (em (retainedAt path w.root = some message)).elim (h path message) fun hnew => ?_
  cases act with
  | subscribe f sub => exact absurd ((retainedAt_subscribe w.live path w.root f sub).symm.trans hmessage) hnew
  | unsubscribe f s name => exact absurd ((retainedAt_unsubscribe w.live path w.root f s name).symm.trans hmessage) hnew
  | setRetained topic payload qos dup =>
    rw [treeCall, retainedAt_setRetainedMessage] at hmessage
    split_ifs at hmessage with hpath
    · unfold retainedOf at hmessage
      split_ifs at hmessage with hpayload
      exact hpath.1 ▸ hok hpath.2.1 hpath.2.2 hpayload
    · exact absurd hmessage hnew
  | clearRetained topic =>
    rw [treeCall, retainedAt_clearRetainedMessage] at hmessage
    split_ifs at hmessage
    exact absurd hmessage hnew
  | cleanExpired => exact absurd ((retainedAt_cleanExpired w.live path w.root).symm.trans hmessage) hnew
  | expired s => exact absurd hmessage hnew

/-- Which valid topics have no wildcards, and which calls keep retained messages away from the nodes `+` and `#`:
    in a run of such calls there is never one, and after any other call there is one. -/
theorem publish_topics_plain_iff (topic : StdString) (w w' : TreeWorld) (act : TreeAct) :
    (isValidTopic topic false = true → (WildcardFree topic ↔
      ((splitTopic topic).head? = some shareLevel → ∀ level ∈ (splitTopic topic).tail, WildcardFree level))) ∧
    (Reachable treeStep StoresPlain (· = {}) w → RetainedPlain w.root) ∧
    (treeStep w act = some w' → ¬ StoresPlain w act → ¬ RetainedPlain w'.root) := by
  refine ⟨wildcardFree_iff, ?_, ?_⟩
  · intro h
    apply h.invariant (I := fun w => RetainedPlain w.root)
    · rintro w rfl path message hmessage
      rw [retainedAt, retainedField.valueAt_new] at hmessage
      cases hmessage
    · exact fun w act w' hw hok hs => retainedPlain_step hw hok hs
  · intro hs hbad hplain
    obtain ⟨-, rfl⟩ := treeStep_eq hs
    cases act with
    | setRetained topic payload qos dup =>
      refine hbad fun hvalid hlast hpayload => hplain (splitTopic topic) ⟨payload, qos, dup⟩ ?_
      rw [treeCall, retainedAt_setRetainedMessage, if_pos ⟨rfl, hvalid, hlast⟩, retainedOf, if_neg hpayload]
    | _ => exact hbad trivial

instance (w : TreeWorld) : DecidablePred (StoresPlain w)
  | .setRetained _ _ _ _ => inferInstanceAs (Decidable (_ → _ → _ → PlainLevels _))
  | .subscribe _ _ | .unsubscribe _ _ _ | .clearRetained _ | .cleanExpired | .expired _ => isTrue trivial

/-- A message retained for `a`, and a subscription to `+`. -/
theorem publish_topics_plain_retained : ∃ w, Reachable treeStep StoresPlain (· = {}) w ∧
    (retainedAt [[97]] w.root).isSome ∧ RetainedPlain w.root :=
  exists_reached [.setRetained [97] [1] 0 false, .subscribe [43] ⟨0, 0, false, []⟩] rfl (by decide +kernel)
    fun w hreach hrun => ⟨of_run hrun (by decide +kernel),
      (publish_topics_plain_iff [97] w w .cleanExpired).2.1 hreach⟩

/-- `$share/g/+` is accepted, and a message retained for it is at a node named `+`. -/
theorem share_topic_with_wildcard : isValidTopic (shareLevel ++ [47, 103, 47, 43]) false = true ∧
    (retainedAt [shareLevel, [103], plusLevel]
      (setRetainedMessage (shareLevel ++ [47, 103, 47, 43]) [1] 0 false (.new [47]))).isSome = true := by
  decide +kernel

/-! ## System topics -/

def HasFilter (w : TreeWorld) (s : SessionId) (path : List StdString) : Prop :=
  ∃ sub ∈ entriesAt path w.root, sub.isShared = false ∧ sub.session = s

/-- The session has a filter that matches the topic and names its first level. -/
def NamesFirst (w : TreeWorld) (topic : StdString) (s : SessionId) : Prop :=
  ∃ path, path.head? = (splitTopic topic).head? ∧ isWildcardMatch path (splitTopic topic) ∧ HasFilter w s path

theorem entriesHashLast_of_reachable (h : Reachable treeStep Always (· = {}) w) : EntriesHashLast w.root := by
  apply h.invariant (I := fun w => EntriesHashLast w.root)
  · rintro w rfl
    exact entriesHashLast_new _
  · intro w act w' hw _ hs
    obtain ⟨-, rfl⟩ := treeStep_eq hs
    exact hw.call act

/-- A topic, with or without `$` at its beginning, is hidden from filters with a leading wildcard precisely if every
    live session with such a filter for it has one that names its first level, too. -/
theorem system_topic_hidden_iff (h : Reachable treeStep Always (· = {}) w) (topic : StdString) :
    (∀ sub ∈ getSubscribers w.live topic w.root, NamesFirst w topic sub.session) ↔
      (isValidTopic topic false = true → ∀ s path, w.live s = true →
        path.head? = some plusLevel ∨ path.head? = some hashLevel → isWildcardMatch path (splitTopic topic) = true →
        HasFilter w s path → NamesFirst w topic s) := by
  by_cases hvalid : isValidTopic topic false
  · have hreturned := fun s hlive => @exists_getSubscribers w.live w.root (entriesHashLast_of_reachable h) topic
      hvalid s hlive
    obtain ⟨level, levels, hsplit⟩ := exists_cons_of_ne_nil (splitTopic_ne_nil (ne_nil_of_isValidTopic hvalid))
    constructor
    · intro hhidden _ s path hlive _ hmatch hfilter
      obtain ⟨sub, hsub, rfl⟩ := (hreturned s hlive).2 ⟨path, hmatch, hfilter⟩
      exact hhidden sub hsub
    · intro hcond sub hsub
      have hlive : w.live sub.session := by
        rw [getSubscribers, if_pos hvalid] at hsub
        exact (mem_uniqueSessions hsub).2.1
      obtain ⟨path, hmatch, hfilter⟩ := (hreturned _ hlive).1 ⟨sub, hsub, rfl⟩
      have hmatch' := hmatch
      rw [hsplit, isWildcardMatch_level] at hmatch'
      rcases hmatch' with rfl | ⟨first, rest, rfl, -, rfl | rfl, -⟩
      · exact hcond hvalid _ _ hlive (.inr rfl) hmatch hfilter
      · exact hcond hvalid _ _ hlive (.inl rfl) hmatch hfilter
      · exact ⟨_, by rw [hsplit]; rfl, hmatch, hfilter⟩
  · simp [getSubscribers, hvalid]

/-- Session 0 subscribes to `#` and to `$S/+`. -/
theorem system_topic_hidden_named : ∃ w, Reachable treeStep Always (· = {}) w ∧ HasFilter w 0 [hashLevel] ∧
    ∀ s path, w.live s = true → path.head? = some plusLevel ∨ path.head? = some hashLevel →
      isWildcardMatch path (splitTopic [36, 83, 47, 97]) = true → HasFilter w s path →
      NamesFirst w [36, 83, 47, 97] s := by
  refine exists_reached [.subscribe hashLevel { session := 0, qos := 0 },
    .subscribe [36, 83, 47, 43] { session := 0, qos := 1 }] rfl (by decide +kernel) fun w hreach hrun => ?_
  have hreturned : getSubscribers w.live [36, 83, 47, 97] w.root = [⟨0, 1, false, []⟩] := of_run hrun (by decide +kernel)
  have hmem : ⟨0, 0, false, []⟩ ∈ entriesAt [hashLevel] w.root := of_run hrun (by decide +kernel)
  have hmem' : ⟨0, 1, false, []⟩ ∈ entriesAt [[36, 83], plusLevel] w.root := of_run hrun (by decide +kernel)
  refine ⟨⟨_, hmem, rfl, rfl⟩, ?_⟩
  refine (system_topic_hidden_iff hreach [36, 83, 47, 97]).1 ?_ (by decide +kernel)
  rw [hreturned]
  refine forall_mem_singleton.2 ⟨[[36, 83], plusLevel], ?_, ?_, _, hmem', rfl, rfl⟩
  · decide +kernel
  · decide +kernel

/-- Session 0 has subscribed to `#` only, and gets what is published for `$S`. -/
theorem system_topic_not_hidden : ∃ w, Reachable treeStep Always (· = {}) w ∧
    (getSubscribers w.live [36, 83] w.root).map SubscriptionInfo.session = [0] ∧ ¬ NamesFirst w [36, 83] 0 := by
  refine exists_reached [.subscribe hashLevel { session := 0, qos := 0 }] rfl (by decide +kernel)
    fun w _ hrun => ⟨of_run hrun (by decide +kernel), ?_⟩
  have hnone : (w.root.children.find [36, 83]).isNone := of_run hrun (by decide +kernel)
  rintro ⟨path, hhead, -, sub, hsub, -⟩
  cases path with
  | nil => exact absurd hhead (by decide +kernel)
  | cons level path =>
    obtain rfl : level = [36, 83] := Option.some.inj (hhead.trans (by decide +kernel))
    rw [entriesAt, Field.valueAt_cons_missing _ (Option.isNone_iff_eq_none.1 hnone)] at hsub
    cases hsub

end HvVerified.Mqtt
