import HvVerified.Lib.Runs
import HvVerified.Mqtt.TopicTree

/-!
# Proofs: the topic tree as a function on paths

A `Field` is what a node holds, its subscribers or its retained message; `Field.valueAt` reads it at a
path from the root. The operations of the tree create nodes on their way, but as far as fields are
concerned they change nothing except at their own path (`Field.valueAt_withNode`). The walk of
`collect_subscribers` is then the flat matcher `is_wildcard_match` applied to all paths with entries
(`mem_collectSubscribers`).
-/

namespace HvVerified.Mqtt

open Base Lib List TopicChildren TopicNode SubscriptionInfo

variable (node : TopicNode) {level : StdString} {sub : SubscriptionInfo} {path : List StdString}

/-! ## Levels -/

theorem getlines_eq_splitOn (stream : StdString) : ∀ token : StdString, stream ≠ [] ∨ token ≠ [] →
    getlines token stream ++ (if stream.getLast? = some separator then [[]] else []) =
      (stream.splitOn separator).modifyHead (token ++ ·) := by
  induction stream with
  | nil =>
    intro token h
    have htoken : token ≠ [] := h.resolve_left fun h => h rfl
    simp [getlines, htoken]
  | cons c stream ih =>
    intro token _
    have hsplit : (c :: stream).splitOn separator = if c = separator then [] :: stream.splitOn separator
        else (stream.splitOn separator).modifyHead (cons c) := by
      rw [splitOn, splitOnP_cons_eq_if_modifyHead]
      simp [splitOn]
    rw [getlines, hsplit]
    by_cases hc : c = separator
    · subst hc
      rw [if_pos rfl, if_pos rfl, modifyHead_cons, append_nil, cons_append]
      congr 1
      by_cases hs : stream = []
      · subst hs
        simp [getlines]
      · have hlast : (separator :: stream).getLast? = stream.getLast? := by
          obtain ⟨y, ys, rfl⟩ := exists_cons_of_ne_nil hs
          exact getLast?_cons_cons
        rw [hlast, ih [] (.inl hs)]
        exact congrFun modifyHead_id _
    · have hlast : (c :: stream).getLast? = some separator ↔ stream.getLast? = some separator := by
        cases stream with
        | nil => simp [hc]
        | cons y ys => rw [getLast?_cons_cons]
      rw [if_neg hc, if_neg hc, if_congr hlast rfl rfl, ih _ (.inr (by simp)),
        modifyHead_modifyHead]
      congr 1
      funext x
      simp

theorem splitTopic_eq_splitOn {topic : StdString} (h : topic ≠ []) :
    splitTopic topic = topic.splitOn separator := by
  refine (getlines_eq_splitOn topic [] (.inl h)).trans ?_
  exact congrFun modifyHead_id _

def joinTopic (levels : List StdString) : StdString := [separator].intercalate levels

theorem joinTopic_splitTopic (topic : StdString) : joinTopic (splitTopic topic) = topic := by
  by_cases h : topic = []
  · subst h
    decide
  · rw [joinTopic, splitTopic_eq_splitOn h]
    exact intercalate_splitOn separator

theorem splitTopic_injective {t t' : StdString} (h : splitTopic t = splitTopic t') : t = t' := by
  rw [← joinTopic_splitTopic t, h, joinTopic_splitTopic]

theorem splitTopic_ne_nil {topic : StdString} (h : topic ≠ []) : splitTopic topic ≠ [] := by
  rw [splitTopic_eq_splitOn h]
  exact splitOnP_ne_nil _ _

/-! ## The flat matcher -/

section Match

variable {f t : StdString} {fs ts : List StdString}

theorem isWildcardMatch_nil : isWildcardMatch [] ts ↔ ts = [] := by
  simp [isWildcardMatch, isWildcardMatchLoop, eq_comm]

theorem isWildcardMatch_hash : isWildcardMatch (hashLevel :: fs) ts ↔ fs = [] := by
  simp [isWildcardMatch, isWildcardMatchLoop]

theorem isWildcardMatch_cons_nil (hf : f ≠ hashLevel) : isWildcardMatch (f :: fs) [] = false := by
  rw [isWildcardMatch, isWildcardMatchLoop, if_neg hf]
  split_ifs <;> rfl

theorem getLast?_cons_hash (hf : f ≠ hashLevel) :
    (f :: fs).getLast? = some hashLevel ↔ fs.getLast? = some hashLevel := by
  cases fs with
  | nil => simp [hf]
  | cons g gs => rw [getLast?_cons_cons]

theorem isWildcardMatchLoop_cons_cons (hf : f ≠ hashLevel) : isWildcardMatchLoop (f :: fs) (t :: ts) =
    if f = plusLevel ∨ f = t then isWildcardMatchLoop fs ts else some false := by
  rw [isWildcardMatchLoop, if_neg hf]
  by_cases hplus : f = plusLevel
  · simp [hplus]
  · by_cases heq : f = t
    · simp [heq]
    · simp [hplus, heq]

theorem isWildcardMatch_cons_cons (hf : f ≠ hashLevel) :
    isWildcardMatch (f :: fs) (t :: ts) ↔ (f = plusLevel ∨ f = t) ∧ isWildcardMatch fs ts := by
  rw [isWildcardMatch, isWildcardMatch, isWildcardMatchLoop_cons_cons hf]
  by_cases hft : f = plusLevel ∨ f = t
  · rw [if_pos hft]
    cases isWildcardMatchLoop fs ts with
    | none =>
      simp only [Bool.or_eq_true, decide_eq_true_eq, getLast?_cons_hash hf, length_cons,
        Nat.add_right_cancel_iff, hft, true_and]
    | some r => simp [hft]
  · simp [hft]

theorem isWildcardMatch_end : isWildcardMatch fs [] ↔ fs = [] ∨ fs = [hashLevel] := by
  cases fs with
  | nil => simp [isWildcardMatch_nil]
  | cons f fs =>
    by_cases hf : f = hashLevel
    · subst hf
      simp [isWildcardMatch_hash]
    · simp [isWildcardMatch_cons_nil hf, hf]

theorem isWildcardMatch_level : isWildcardMatch fs (t :: ts) ↔
    fs = [hashLevel] ∨ ∃ f rest, fs = f :: rest ∧ f ≠ hashLevel ∧ (f = plusLevel ∨ f = t) ∧
      isWildcardMatch rest ts := by
  cases fs with
  | nil => simp [isWildcardMatch_nil]
  | cons f fs =>
    by_cases hf : f = hashLevel
    · subst hf
      simp [isWildcardMatch_hash]
    · rw [isWildcardMatch_cons_cons hf]
      constructor
      · rintro ⟨hft, hrest⟩
        exact .inr ⟨f, fs, rfl, hf, hft, hrest⟩
      · rintro (h | ⟨f', rest, heq, -, hft, hrest⟩)
        · exact absurd (cons.inj h).1 hf
        · obtain ⟨rfl, rfl⟩ := cons.inj heq
          exact ⟨hft, hrest⟩

end Match

/-! ## Fields of nodes -/

theorem TopicChildren.find_set_self (level : StdString) (node : TopicNode) : ∀ children : TopicChildren,
    (children.set level node).find level = some node
  | .nil => by simp [set, TopicChildren.find]
  | .cons level' node' rest => by
    rw [set]
    split_ifs with h
    · rw [TopicChildren.find, if_pos h]
    · rw [TopicChildren.find, if_neg h, find_set_self level node rest]

theorem TopicChildren.find_set_of_ne {level l : StdString} (hl : l ≠ level) (node : TopicNode) :
    ∀ children : TopicChildren, (children.set level node).find l = children.find l
  | .nil => by simp [set, TopicChildren.find, Ne.symm hl]
  | .cons level' node' rest => by
    rw [set]
    split_ifs with h
    · rw [TopicChildren.find, TopicChildren.find, if_neg (h ▸ Ne.symm hl), if_neg (h ▸ Ne.symm hl)]
    · rw [TopicChildren.find, TopicChildren.find, find_set_of_ne hl node rest]

@[simp]
theorem TopicNode.children_setChildren (node : TopicNode) (children : TopicChildren) :
    (node.setChildren children).children = children := by
  cases node
  rfl

@[simp]
theorem TopicNode.children_setSubscribers (subscribers : List SubscriptionInfo) :
    (node.setSubscribers subscribers).children = node.children := by
  cases node
  rfl

@[simp]
theorem TopicNode.children_setRetained (retained : Option RetainedMessage) :
    (node.setRetained retained).children = node.children := by
  cases node
  rfl

@[simp]
theorem TopicNode.subscribers_setSubscribers (subscribers : List SubscriptionInfo) :
    (node.setSubscribers subscribers).subscribers = subscribers := by
  cases node
  rfl

@[simp]
theorem TopicNode.subscribers_setRetained (retained : Option RetainedMessage) :
    (node.setRetained retained).subscribers = node.subscribers := by
  cases node
  rfl

@[simp]
theorem TopicNode.retained_setSubscribers (subscribers : List SubscriptionInfo) :
    (node.setSubscribers subscribers).retained = node.retained := by
  cases node
  rfl

@[simp]
theorem TopicNode.retained_setRetained (retained : Option RetainedMessage) :
    (node.setRetained retained).retained = retained := by
  cases node
  rfl

/-- Something that nodes hold beside their children, and that a new node does not have. -/
structure Field (β : Type) where
  value : TopicNode → β
  empty : β
  value_setChildren : ∀ node children, value (node.setChildren children) = value node
  value_new : ∀ name, value (.new name) = empty

def subscribersField : Field (List SubscriptionInfo) where
  value := subscribers
  empty := []
  value_setChildren node children := by
    cases node
    rfl
  value_new _ := rfl

def retainedField : Field (Option RetainedMessage) where
  value := retained
  empty := none
  value_setChildren node children := by
    cases node
    rfl
  value_new _ := rfl

/-- The field of the node at a path. -/
def Field.valueAt {β : Type} (F : Field β) : List StdString → TopicNode → β
  | [], node => F.value node
  | level :: path, node =>
    match node.children.find level with
    | some child => F.valueAt path child
    | none => F.empty

/-- The subscriptions at a path. -/
abbrev entriesAt (path : List StdString) (root : TopicNode) : List SubscriptionInfo :=
  subscribersField.valueAt path root

/-- The retained message at a path. -/
abbrev retainedAt (path : List StdString) (root : TopicNode) : Option RetainedMessage :=
  retainedField.valueAt path root

/-- `#` is at most the last level. -/
def HashLast (path : List StdString) : Prop := ∀ level ∈ path.dropLast, level ≠ hashLevel

instance : DecidablePred HashLast := fun path =>
  inferInstanceAs (Decidable (∀ level ∈ path.dropLast, level ≠ hashLevel))

theorem hashLast_nil : HashLast [] := by simp [HashLast]

theorem hashLast_cons : HashLast (level :: path) ↔ (level = hashLevel → path = []) ∧ HashLast path := by
  cases path with
  | nil => simp [HashLast]
  | cons next path =>
    constructor
    · intro h
      refine ⟨fun hl => absurd hl (h level (by simp)), ?_⟩
      intro l hl
      exact h l (by simp [hl])
    · rintro ⟨hl, hpath⟩ l hmem
      rw [dropLast_cons_cons, mem_cons] at hmem
      rcases hmem with rfl | hmem
      · intro heq
        exact absurd (hl heq) (by simp)
      · exact hpath l hmem

section Update

variable {β : Type} (F : Field β) {f : TopicNode → TopicNode} {g : β → β}

theorem Field.valueAt_cons_find {node child : TopicNode}
    (h : node.children.find level = some child) : F.valueAt (level :: path) node = F.valueAt path child := by
  rw [Field.valueAt, h]

theorem Field.valueAt_cons_missing {node : TopicNode}
    (h : node.children.find level = none) : F.valueAt (level :: path) node = F.empty := by
  rw [Field.valueAt, h]

theorem Field.valueAt_new (name : StdString) (path : List StdString) : F.valueAt path (.new name) = F.empty := by
  cases path with
  | nil => exact F.value_new name
  | cons level path => rfl

theorem Field.valueAt_setChild (node child : TopicNode) (token level : StdString) (path : List StdString) :
    F.valueAt (level :: path) (node.setChildren (node.children.set token child)) =
      if level = token then F.valueAt path child else F.valueAt (level :: path) node := by
  split_ifs with h
  · subst h
    refine F.valueAt_cons_find ?_
    rw [children_setChildren, find_set_self]
  · rw [Field.valueAt, children_setChildren, find_set_of_ne h, Field.valueAt]

theorem Field.valueAt_withNodeLoop (hchildren : ∀ node, (f node).children = node.children)
    (hvalue : ∀ node, F.value (f node) = g (F.value node)) (create : Bool) :
    ∀ (tokens path : List StdString) (node : TopicNode),
      F.valueAt path (withNodeLoop create f tokens node).1 =
        if path = tokens ∧ (withNodeLoop create f tokens node).2 then g (F.valueAt path node)
        else F.valueAt path node := by
  intro tokens
  induction tokens with
  | nil =>
    intro path node
    rw [withNodeLoop]
    cases path with
    | nil =>
      exact hvalue node
    | cons level path =>
      rw [if_neg (by simp), Field.valueAt, hchildren, Field.valueAt]
  | cons token tokens ih =>
    intro path node
    rw [withNodeLoop]
    by_cases hhash : token = hashLevel ∧ tokens ≠ []
    · simp [if_pos hhash]
    rw [if_neg hhash]
    cases hfind : node.children.find token with
    | none =>
      cases create with
      | false => simp
      | true =>
        simp only [if_true]
        cases path with
        | nil => exact F.value_setChildren _ _ |>.trans (if_neg (by simp)).symm
        | cons level path =>
          rw [F.valueAt_setChild]
          by_cases hl : level = token
          · -- the new child held nothing before, and neither did the path through it
            subst hl
            rw [if_pos rfl, ih, F.valueAt_new, F.valueAt_cons_missing hfind]
            simp
          · rw [if_neg hl, if_neg (by simp [hl])]
    | some child =>
      cases path with
      | nil => exact F.value_setChildren _ _ |>.trans (if_neg (by simp)).symm
      | cons level path =>
        rw [F.valueAt_setChild]
        by_cases hl : level = token
        · subst hl
          rw [if_pos rfl, ih, F.valueAt_cons_find hfind]
          simp
        · rw [if_neg hl, if_neg (by simp [hl])]

theorem withNodeLoop_create (tokens : List StdString) : ∀ node : TopicNode,
    (withNodeLoop true f tokens node).2 ↔ HashLast tokens := by
  induction tokens with
  | nil =>
    intro node
    simp [withNodeLoop, hashLast_nil]
  | cons token tokens ih =>
    intro node
    rw [withNodeLoop, hashLast_cons]
    by_cases hhash : token = hashLevel ∧ tokens ≠ []
    · simp [hhash.1, hhash.2]
    · have hlast : token = hashLevel → tokens = [] := by
        intro h
        by_contra hne
        exact hhash ⟨h, hne⟩
      rw [if_neg hhash]
      cases node.children.find token with
      | none | some => simpa [ih] using fun _ => hlast

/-- All operations on one topic have this form: the topic is checked and its node is changed. -/
theorem Field.valueAt_withNode (hchildren : ∀ node, (f node).children = node.children)
    (hvalue : ∀ node, F.value (f node) = g (F.value node)) (valid create : Bool)
    (tokens path : List StdString) (root : TopicNode) :
    F.valueAt path (if valid then withNode create f tokens root else (root, false)).1 =
      if path = tokens ∧ (if valid then withNode create f tokens root else (root, false)).2 then
        g (F.valueAt path root)
      else F.valueAt path root := by
  cases valid with
  | false => simp
  | true =>
    unfold withNode
    by_cases htokens : tokens = []
    · simp [htokens]
    · rw [if_neg htokens]
      exact F.valueAt_withNodeLoop hchildren hvalue create tokens path root

theorem Field.valueAt_withNode_same (hchildren : ∀ node, (f node).children = node.children)
    (hvalue : ∀ node, F.value (f node) = F.value node) (valid create : Bool)
    (tokens path : List StdString) (root : TopicNode) :
    F.valueAt path (if valid then withNode create f tokens root else (root, false)).1 =
      F.valueAt path root := by
  rw [F.valueAt_withNode (g := id) hchildren hvalue]
  exact ite_self _

theorem withNode_create {valid : Bool} {tokens : List StdString} {root : TopicNode} :
    (if valid then withNode true f tokens root else (root, false)).2 ↔
      valid ∧ tokens ≠ [] ∧ HashLast tokens := by
  cases valid with
  | false => simp
  | true =>
    by_cases htokens : tokens = []
    · simp [withNode, htokens]
    · simp [withNode, htokens, withNodeLoop_create]

end Update

/-! ## The operations -/

section Operations

variable (live : SessionId → Bool)

def removeEntries (session : SessionId) (shareName : StdString) (entries : List SubscriptionInfo) :
    List SubscriptionInfo :=
  entries.filter fun s =>
    !(live s.session && s.session = session && (shareName = [] || s.shareName = shareName))

/-- What distinguishes the subscriptions to one filter. -/
def SubscriptionInfo.key (s : SubscriptionInfo) : SessionId × Bool × StdString :=
  (s.session, s.isShared, s.shareName)

/-- The subscribers of a node after `subscribe`. -/
def subscribeEntries (sub : SubscriptionInfo) (entries : List SubscriptionInfo) : List SubscriptionInfo :=
  let kept := if entries.any (fun s => live s.session && s.key = sub.key) then
    removeEntries live sub.session sub.shareName entries else entries
  if kept.any (fun s => live s.session && s = sub) then kept else kept ++ [sub]

theorem children_removeSubscriber (session : SessionId) (shareName : StdString) (node : TopicNode) :
    (removeSubscriber live session shareName node).children = node.children := by
  simp [removeSubscriber]

theorem subscribers_removeSubscriber (session : SessionId) (shareName : StdString) (node : TopicNode) :
    (removeSubscriber live session shareName node).subscribers =
      removeEntries live session shareName node.subscribers := by
  simp [removeSubscriber, removeEntries]

theorem children_subscribeNode (sub : SubscriptionInfo) (node : TopicNode) :
    (subscribeNode live sub node).children = node.children := by
  unfold subscribeNode addSubscriber
  dsimp only
  split_ifs <;> simp [removeSubscriber]

theorem retained_subscribeNode (sub : SubscriptionInfo) (node : TopicNode) :
    (subscribeNode live sub node).retained = node.retained := by
  unfold subscribeNode addSubscriber
  dsimp only
  split_ifs <;> simp [removeSubscriber]

theorem subscribers_subscribeNode (sub : SubscriptionInfo) (node : TopicNode) :
    (subscribeNode live sub node).subscribers = subscribeEntries live sub node.subscribers := by
  have hsame : (fun s : SubscriptionInfo => live s.session && s.session = sub.session &&
      s.isShared = sub.isShared && s.shareName = sub.shareName) =
      fun s => live s.session && s.key = sub.key := by
    funext s
    simp only [key, Prod.mk.injEq, Bool.decide_and, Bool.and_assoc]
  unfold subscribeNode addSubscriber subscribeEntries
  dsimp only
  rw [hsame]
  by_cases hany : (node.subscribers.any fun s => live s.session && s.key = sub.key)
  · rw [if_pos hany, if_pos hany, subscribers_removeSubscriber]
    split_ifs
    · exact subscribers_removeSubscriber live _ _ _
    · simp
  · split_ifs
    · rfl
    · simp

variable (path : List StdString) (root : TopicNode)

theorem entriesAt_subscribe (topicFilter : StdString) (sub : SubscriptionInfo) :
    entriesAt path (subscribe live topicFilter sub root).1 =
      if path = splitTopic topicFilter ∧ (subscribe live topicFilter sub root).2 then
        subscribeEntries live sub (entriesAt path root)
      else entriesAt path root :=
  subscribersField.valueAt_withNode (children_subscribeNode live sub) (subscribers_subscribeNode live sub) _
    true _ path root

theorem retainedAt_subscribe (topicFilter : StdString) (sub : SubscriptionInfo) :
    retainedAt path (subscribe live topicFilter sub root).1 = retainedAt path root :=
  retainedField.valueAt_withNode_same (children_subscribeNode live sub) (retained_subscribeNode live sub) _
    true _ path root

theorem entriesAt_unsubscribe (topicFilter : StdString) (session : SessionId) (shareName : StdString) :
    entriesAt path (unsubscribe live topicFilter session shareName root).1 =
      if path = splitTopic topicFilter ∧
          (unsubscribe live topicFilter session shareName root).2 then
        removeEntries live session shareName (entriesAt path root)
      else entriesAt path root :=
  subscribersField.valueAt_withNode (children_removeSubscriber live session shareName)
    (subscribers_removeSubscriber live session shareName) _ false _ path root

theorem retainedAt_unsubscribe (topicFilter : StdString) (session : SessionId) (shareName : StdString) :
    retainedAt path (unsubscribe live topicFilter session shareName root).1 = retainedAt path root :=
  retainedField.valueAt_withNode_same (children_removeSubscriber live session shareName)
    (fun node => retained_setSubscribers node _) _ false _ path root

theorem subscribe_succeeds {topicFilter : StdString} {root : TopicNode} : (subscribe live topicFilter sub root).2 ↔
      isValidTopicFilter topicFilter ∧ HashLast (splitTopic topicFilter) := by
  rw [subscribe, withNode_create]
  constructor
  · rintro ⟨hvalid, -, hlast⟩
    exact ⟨hvalid, hlast⟩
  · rintro ⟨hvalid, hlast⟩
    refine ⟨hvalid, ?_, hlast⟩
    apply splitTopic_ne_nil
    rintro rfl
    exact absurd hvalid (by decide)

def retainedOf (payload : List UInt8) (qos : Nat) (dup : Bool) : Option RetainedMessage :=
  if payload = [] then none else some { payload, qos, dup }

theorem setRetainedMessage_eq (topic : StdString) (payload : List UInt8) (qos : Nat) (dup : Bool) :
    setRetainedMessage topic payload qos dup root =
      (if isValidTopic topic false then
        withNode true (setRetained (retainedOf payload qos dup)) (splitTopic topic) root
      else (root, false)).1 := by
  unfold setRetainedMessage
  by_cases hvalid : isValidTopic topic false
  · rw [if_pos hvalid, if_pos hvalid]
    rfl
  · rw [if_neg hvalid, if_neg hvalid]

theorem entriesAt_setRetainedMessage (topic : StdString) (payload : List UInt8) (qos : Nat) (dup : Bool) :
    entriesAt path (setRetainedMessage topic payload qos dup root) = entriesAt path root := by
  rw [setRetainedMessage_eq]
  exact subscribersField.valueAt_withNode_same (fun node => children_setRetained node _)
    (fun node => subscribers_setRetained node _) _ true _ path root

theorem retainedAt_setRetainedMessage (topic : StdString) (payload : List UInt8) (qos : Nat) (dup : Bool) :
    retainedAt path (setRetainedMessage topic payload qos dup root) =
      if path = splitTopic topic ∧ isValidTopic topic false ∧ HashLast (splitTopic topic) then
        retainedOf payload qos dup
      else retainedAt path root := by
  have htokens : isValidTopic topic false → splitTopic topic ≠ [] := by
    intro hvalid
    apply splitTopic_ne_nil
    rintro rfl
    exact absurd hvalid (by decide)
  rw [setRetainedMessage_eq, retainedAt, retainedField.valueAt_withNode
    (g := fun _ => retainedOf payload qos dup) (fun node => children_setRetained node _)
    (fun node => retained_setRetained node _)]
  refine if_congr (and_congr_right fun _ => ?_) rfl rfl
  rw [withNode_create]
  exact and_congr_right fun hvalid => and_iff_right (htokens hvalid)

theorem entriesAt_clearRetainedMessage (topic : StdString) :
    entriesAt path (clearRetainedMessage topic root).1 = entriesAt path root :=
  subscribersField.valueAt_withNode_same (fun node => children_setRetained node _)
    (fun node => subscribers_setRetained node _) _ false _ path root

theorem retainedAt_clearRetainedMessage (topic : StdString) : retainedAt path (clearRetainedMessage topic root).1 =
      if path = splitTopic topic ∧ (clearRetainedMessage topic root).2 then none
      else retainedAt path root :=
  retainedField.valueAt_withNode (g := fun _ => none) (fun node => children_setRetained node _)
    (fun node => retained_setRetained node _) _ false _ path root

theorem TopicChildren.find_cleanExpired (level : StdString) : ∀ children : TopicChildren,
    (children.cleanExpired live).find level = (children.find level).map (TopicNode.cleanExpired live)
  | .nil => rfl
  | .cons level' node rest => by
    rw [cleanExpired, TopicChildren.find, TopicChildren.find, find_cleanExpired level rest]
    split_ifs <;> rfl

theorem Field.valueAt_cleanExpired {β : Type} (F : Field β) (g : β → β)
    (hvalue : ∀ node, F.value (node.cleanExpired live) = g (F.value node)) (hempty : g F.empty = F.empty)
    (path : List StdString) : ∀ root : TopicNode,
    F.valueAt path (root.cleanExpired live) = g (F.valueAt path root) := by
  induction path with
  | nil => exact hvalue
  | cons level path ih =>
    rintro ⟨name, subscribers, retained, children⟩
    have hfind := find_cleanExpired live level children
    cases hchild : children.find level with
    | none =>
      rw [hchild] at hfind
      rw [F.valueAt_cons_missing hfind, F.valueAt_cons_missing hchild, hempty]
    | some child =>
      rw [hchild] at hfind
      rw [F.valueAt_cons_find hfind, F.valueAt_cons_find hchild]
      exact ih child

theorem entriesAt_cleanExpired (path : List StdString) (root : TopicNode) :
    entriesAt path (root.cleanExpired live) = (entriesAt path root).filter fun s => live s.session :=
  subscribersField.valueAt_cleanExpired live (filter fun s => live s.session) (fun ⟨_, _, _, _⟩ => rfl) rfl path root

theorem retainedAt_cleanExpired (path : List StdString) (root : TopicNode) :
    retainedAt path (root.cleanExpired live) = retainedAt path root :=
  retainedField.valueAt_cleanExpired live id (fun ⟨_, _, _, _⟩ => rfl) rfl path root

end Operations

/-! ## The walk -/

/-- Entries stand only where `#` is at most the last level. -/
def EntriesHashLast (root : TopicNode) : Prop := ∀ path, entriesAt path root ≠ [] → HashLast path

theorem EntriesHashLast.child {node child : TopicNode} (h : EntriesHashLast node)
    (hfind : node.children.find level = some child) : EntriesHashLast child := by
  intro path hpath
  have hnode := h (level :: path) (by rwa [entriesAt, Field.valueAt_cons_find _ hfind])
  exact (hashLast_cons.1 hnode).2

theorem mem_publishedTo {node : TopicNode} :
    sub ∈ publishedTo node ↔ sub ∈ entriesAt [] node ∧ sub.isShared = false := by
  simp [publishedTo, entriesAt, Field.valueAt, subscribersField]

theorem mem_hashSubscribers {node : TopicNode} :
    sub ∈ hashSubscribers node ↔ sub ∈ entriesAt [hashLevel] node ∧ sub.isShared = false := by
  unfold hashSubscribers
  cases hfind : node.children.find hashLevel with
  | none => simp [entriesAt, Field.valueAt_cons_missing _ hfind, subscribersField]
  | some child => rw [entriesAt, Field.valueAt_cons_find _ hfind, mem_publishedTo]

/-- The walk of `collect_subscribers` collects the entries at the paths that match the topic. -/
theorem mem_collectSubscribers (tokens : List StdString) :
    ∀ {node : TopicNode}, EntriesHashLast node → (sub ∈ collectSubscribers tokens node ↔
      ∃ path, isWildcardMatch path tokens ∧ sub ∈ entriesAt path node ∧ sub.isShared = false) := by
  induction tokens with
  | nil =>
    intro node _
    rw [collectSubscribers, mem_append, mem_publishedTo, mem_hashSubscribers]
    simp only [isWildcardMatch_end, or_and_right, exists_or, exists_eq_left]
  | cons token tokens ih =>
    intro node hnode
    have hchild : ∀ level, (sub ∈ match node.children.find level with
        | some child => collectSubscribers tokens child
        | none => []) ↔ ∃ path, isWildcardMatch path tokens ∧
          sub ∈ entriesAt (level :: path) node ∧ sub.isShared = false := by
      intro level
      cases hfind : node.children.find level with
      | none => simp [entriesAt, Field.valueAt_cons_missing _ hfind, subscribersField]
      | some child =>
        simp only [entriesAt, Field.valueAt_cons_find _ hfind]
        exact ih (hnode.child hfind)
    rw [collectSubscribers, mem_append, mem_append, mem_hashSubscribers]
    refine (or_congr_left (or_congr (hchild token) (hchild plusLevel))).trans ?_
    constructor
    · rintro ((⟨path, hmatch, hsub, hshared⟩ | ⟨path, hmatch, hsub, hshared⟩) | ⟨hsub, hshared⟩)
      · by_cases htoken : token = hashLevel
        · -- nothing is below `#`: the path ends there, and so does the topic
          subst htoken
          have hpath := (hashLast_cons.1 (hnode _ (ne_nil_of_mem hsub))).1 rfl
          subst hpath
          exact ⟨[hashLevel], isWildcardMatch_hash.2 rfl, hsub, hshared⟩
        · exact ⟨token :: path, (isWildcardMatch_cons_cons htoken).2 ⟨.inr rfl, hmatch⟩, hsub, hshared⟩
      · exact ⟨plusLevel :: path, (isWildcardMatch_cons_cons (by decide)).2 ⟨.inl rfl, hmatch⟩, hsub, hshared⟩
      · exact ⟨[hashLevel], isWildcardMatch_hash.2 rfl, hsub, hshared⟩
    · rintro ⟨path, hmatch, hsub, hshared⟩
      rcases isWildcardMatch_level.1 hmatch with rfl | ⟨f, rest, rfl, -, rfl | rfl, hrest⟩
      · exact .inr ⟨hsub, hshared⟩
      · exact .inl (.inr ⟨rest, hrest, hsub, hshared⟩)
      · exact .inl (.inl ⟨rest, hrest, hsub, hshared⟩)

section Unique

variable {live : SessionId → Bool}

theorem mem_uniqueSessions {subs : List SubscriptionInfo} : ∀ {seen : List SessionId} {sub : SubscriptionInfo},
    sub ∈ uniqueSessions live seen subs → sub ∈ subs ∧ live sub.session ∧ sub.session ∉ seen := by
  induction subs with
  | nil =>
    intro seen sub h
    simp [uniqueSessions] at h
  | cons first subs ih =>
    intro seen sub h
    rw [uniqueSessions] at h
    split_ifs at h with hfirst
    · simp only [Bool.and_eq_true, Bool.not_eq_true', contains_eq_mem, decide_eq_false_iff_not] at hfirst
      rcases mem_cons.1 h with rfl | h
      · exact ⟨mem_cons_self, hfirst.1, hfirst.2⟩
      · obtain ⟨hmem, hlive, hseen⟩ := ih h
        exact ⟨mem_cons_of_mem _ hmem, hlive, fun hs => hseen (mem_cons_of_mem _ hs)⟩
    · obtain ⟨hmem, hrest⟩ := ih h
      exact ⟨mem_cons_of_mem _ hmem, hrest⟩

theorem exists_uniqueSessions {s : SessionId} (hlive : live s) {subs : List SubscriptionInfo} :
    ∀ {seen : List SessionId}, s ∉ seen → (∃ sub ∈ subs, sub.session = s) →
      ∃ sub ∈ uniqueSessions live seen subs, sub.session = s := by
  induction subs with
  | nil =>
    rintro seen - ⟨sub, hsub, -⟩
    simp at hsub
  | cons first subs ih =>
    rintro seen hseen ⟨sub, hsub, rfl⟩
    rw [uniqueSessions]
    by_cases hfirst : first.session = sub.session
    · rw [if_pos (by simpa [hfirst, hlive] using hseen)]
      exact ⟨first, mem_cons_self, hfirst⟩
    · have hsub' : sub ∈ subs := by
        rcases mem_cons.1 hsub with rfl | h
        · exact absurd rfl hfirst
        · exact h
      split_ifs
      · have hseen' : sub.session ∉ first.session :: seen := by simpa [Ne.symm hfirst] using hseen
        obtain ⟨sub', hmem, heq⟩ := ih hseen' ⟨sub, hsub', rfl⟩
        exact ⟨sub', mem_cons_of_mem _ hmem, heq⟩
      · exact ih hseen ⟨sub, hsub', rfl⟩

theorem nodup_uniqueSessions (subs : List SubscriptionInfo) : ∀ seen : List SessionId,
    ((uniqueSessions live seen subs).map session).Nodup := by
  induction subs with
  | nil =>
    intro seen
    simp [uniqueSessions]
  | cons first subs ih =>
    intro seen
    rw [uniqueSessions]
    split_ifs
    · rw [map_cons, nodup_cons]
      refine ⟨?_, ih _⟩
      intro h
      obtain ⟨sub, hsub, heq⟩ := mem_map.1 h
      exact (mem_uniqueSessions hsub).2.2 (heq ▸ mem_cons_self)
    · exact ih _

end Unique

theorem exists_getSubscribers {live : SessionId → Bool} {root : TopicNode} (hroot : EntriesHashLast root)
    {topic : StdString} (hvalid : isValidTopic topic false) {s : SessionId} (hlive : live s) :
    (∃ sub ∈ getSubscribers live topic root, sub.session = s) ↔
      ∃ path, isWildcardMatch path (splitTopic topic) ∧
        ∃ sub ∈ entriesAt path root, sub.isShared = false ∧ sub.session = s := by
  rw [getSubscribers, if_pos hvalid]
  constructor
  · rintro ⟨sub, hsub, rfl⟩
    obtain ⟨path, hmatch, hentry, hshared⟩ :=
      (mem_collectSubscribers _ hroot).1 (mem_uniqueSessions hsub).1
    exact ⟨path, hmatch, sub, hentry, hshared, rfl⟩
  · rintro ⟨path, hmatch, sub, hentry, hshared, rfl⟩
    refine exists_uniqueSessions hlive (by simp) ⟨sub, ?_, rfl⟩
    exact (mem_collectSubscribers _ hroot).2 ⟨path, hmatch, hentry, hshared⟩

end HvVerified.Mqtt
