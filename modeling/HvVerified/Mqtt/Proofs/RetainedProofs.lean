import HvVerified.Mqtt.Proofs.SubscriptionProofs
import Mathlib.Algebra.Order.BigOperators.Group.List
import Mathlib.Data.List.Nodup

/-!
# Proofs: retained messages

`matchRetained` is the lookup without the strings that `collect_retained_messages` builds on its way: it
returns the levels of each topic. The strings are those of `rendered`, which loses empty first levels
(`rendered_eq_iff`). What `get_retained_messages` returns is a permutation of the two together
(`collectRetainedMessages_perm`); the order is that of a queue in the source.
-/

namespace HvVerified.Mqtt

open Base Lib List TopicNode

variable {level : StdString} {node : TopicNode} {message : RetainedMessage} {tokens : List StdString}
  {w w' : TreeWorld}

/-! ## Distinct levels -/

mutual
/-- No level occurs twice among the children of a node. -/
def TopicNode.Distinct : TopicNode → Prop
  | .mk _ _ _ children => children.Distinct
def TopicChildren.Distinct : TopicChildren → Prop
  | .nil => True
  | .cons level node rest => rest.find level = none ∧ node.Distinct ∧ rest.Distinct
end

theorem TopicNode.distinct_iff (node : TopicNode) : node.Distinct ↔ node.children.Distinct := by
  cases node
  exact Iff.rfl

theorem TopicNode.distinct_new (name : StdString) : (new name).Distinct := trivial

theorem TopicChildren.find_of_mem_toList :
    ∀ {children : TopicChildren}, children.Distinct → (level, node) ∈ children.toList →
      children.find level = some node
  | .nil, _, h => by simp [TopicChildren.toList] at h
  | .cons level' node' rest, hd, h => by
    rw [TopicChildren.find]
    rcases mem_cons.1 h with heq | h
    · cases heq
      rw [if_pos rfl]
    · have hrest := find_of_mem_toList hd.2.2 h
      rw [if_neg]
      · exact hrest
      · rintro rfl
        rw [hd.1] at hrest
        simp at hrest

theorem TopicChildren.Distinct.find :
    ∀ {children : TopicChildren}, children.Distinct → children.find level = some node → node.Distinct
  | .nil, _, h => by simp [TopicChildren.find] at h
  | .cons level' node' rest, hd, h => by
    rw [TopicChildren.find] at h
    split_ifs at h
    · cases h
      exact hd.2.1
    · exact TopicChildren.Distinct.find hd.2.2 h

theorem TopicNode.Distinct.child {node child : TopicNode} {level : StdString} (h : node.Distinct)
    (hfind : node.children.find level = some child) : child.Distinct :=
  ((distinct_iff node).1 h).find hfind

theorem TopicChildren.Distinct.set (hnode : node.Distinct) :
    ∀ {children : TopicChildren}, children.Distinct → (children.set level node).Distinct
  | .nil, _ => ⟨rfl, hnode, trivial⟩
  | .cons level' node' rest, hd => by
    rw [TopicChildren.set]
    split_ifs with hl
    · exact ⟨hd.1, hnode, hd.2.2⟩
    · exact ⟨(TopicChildren.find_set_of_ne hl node rest).trans hd.1, hd.2.1, hd.2.2.set hnode⟩

theorem TopicNode.Distinct.withNodeLoop {create : Bool} {f : TopicNode → TopicNode}
    (hf : ∀ node, (f node).children = node.children) (tokens : List StdString) :
    ∀ {node : TopicNode}, node.Distinct → (withNodeLoop create f tokens node).1.Distinct := by
  induction tokens with
  | nil =>
    intro node h
    rw [Mqtt.withNodeLoop, distinct_iff, hf]
    exact (distinct_iff node).1 h
  | cons token tokens ih =>
    intro node h
    rw [Mqtt.withNodeLoop]
    by_cases hhash : token = hashLevel ∧ tokens ≠ []
    · rwa [if_pos hhash]
    rw [if_neg hhash]
    have hset : ∀ {child : TopicNode}, child.Distinct →
        (node.setChildren (node.children.set token child)).Distinct := by
      intro child hchild
      rw [distinct_iff, children_setChildren]
      exact ((distinct_iff node).1 h).set hchild
    cases hfind : node.children.find token with
    | none =>
      cases create with
      | false => exact h
      | true => exact hset (ih (distinct_new token))
    | some child => exact hset (ih (h.child hfind))

theorem TopicNode.Distinct.withNode {valid create : Bool} {f : TopicNode → TopicNode}
    (hf : ∀ node, (f node).children = node.children) (tokens : List StdString) {root : TopicNode}
    (h : root.Distinct) : (if valid then withNode create f tokens root else (root, false)).1.Distinct := by
  cases valid with
  | false => exact h
  | true =>
    unfold Mqtt.withNode
    simp only [if_true]
    split_ifs
    · exact h
    · exact h.withNodeLoop hf tokens

mutual
theorem TopicNode.Distinct.cleanExpired (live : SessionId → Bool) : ∀ {node : TopicNode}, node.Distinct →
    (node.cleanExpired live).Distinct
  | .mk _ _ _ _, h => TopicChildren.Distinct.cleanExpired live h
theorem TopicChildren.Distinct.cleanExpired (live : SessionId → Bool) :
    ∀ {children : TopicChildren}, children.Distinct → (children.cleanExpired live).Distinct
  | .nil, _ => trivial
  | .cons level node rest, h => by
    refine ⟨?_, TopicNode.Distinct.cleanExpired live h.2.1, TopicChildren.Distinct.cleanExpired live h.2.2⟩
    rw [TopicChildren.find_cleanExpired, h.1]
    rfl
end

theorem TopicNode.Distinct.call {root : TopicNode} (h : root.Distinct) (live : SessionId → Bool)
    (act : TreeAct) : (treeCall live root act).1.Distinct := by
  cases act with
  | subscribe f sub => exact h.withNode (children_subscribeNode live sub) _
  | unsubscribe f session shareName => exact h.withNode (children_removeSubscriber live session shareName) _
  | setRetained topic payload qos dup =>
    rw [treeCall, setRetainedMessage_eq]
    exact h.withNode (fun node => children_setRetained node _) _
  | clearRetained topic => exact h.withNode (fun node => children_setRetained node _) _
  | cleanExpired => exact TopicNode.Distinct.cleanExpired live h
  | expired session => exact h

/-! ## What the nodes hold -/

/-- The node at a path. -/
def TopicNode.nodeAt : List StdString → TopicNode → Option TopicNode
  | [], node => some node
  | level :: path, node => (node.children.find level).bind fun child => child.nodeAt path

theorem Field.valueAt_eq {β : Type} (F : Field β) (path : List StdString) : ∀ node : TopicNode,
    F.valueAt path node = ((node.nodeAt path).map F.value).getD F.empty := by
  induction path with
  | nil => exact fun _ => rfl
  | cons level path ih =>
    intro node
    rw [Field.valueAt, nodeAt]
    cases node.children.find level with
    | none => rfl
    | some child => exact ih child

section Collect

variable {β : Type} {own : TopicNode → Option β} {x : β}

mutual
def TopicNode.collect (own : TopicNode → Option β) : TopicNode → List (List StdString × β)
  | .mk name subscribers retained children =>
    ((own (.mk name subscribers retained children)).toList.map fun x => ([], x)) ++ children.collect own
def TopicChildren.collect (own : TopicNode → Option β) : TopicChildren → List (List StdString × β)
  | .nil => []
  | .cons level node rest => (node.collect own).map (fun r => (level :: r.1, r.2)) ++ rest.collect own
end

mutual
theorem TopicNode.mem_collect : ∀ {node : TopicNode} {levels : List StdString}, node.Distinct →
    ((levels, x) ∈ node.collect own ↔ ∃ n, node.nodeAt levels = some n ∧ own n = some x)
  | .mk name subscribers retained children, levels, h => by
    rw [TopicNode.collect, mem_append, TopicChildren.mem_collect h]
    cases levels <;> simp [TopicNode.nodeAt, TopicNode.children]
theorem TopicChildren.mem_collect : ∀ {children : TopicChildren} {levels : List StdString}, children.Distinct →
    ((levels, x) ∈ children.collect own ↔ ∃ level rest n, levels = level :: rest ∧
      ((children.find level).bind fun child => child.nodeAt rest) = some n ∧ own n = some x)
  | .nil, levels, _ => by simp [TopicChildren.collect, TopicChildren.find]
  | .cons level' node children, levels, h => by
    have hnode := fun rest => @TopicNode.mem_collect node rest h.2.1
    rw [TopicChildren.collect, mem_append, TopicChildren.mem_collect h.2.2]
    constructor
    · rintro (hmem | ⟨level, rest, n, rfl, hfind, hx⟩)
      · obtain ⟨⟨rest, y⟩, hbelow, heq⟩ := mem_map.1 hmem
        cases heq
        obtain ⟨n, hfind, hx⟩ := (hnode rest).1 hbelow
        exact ⟨level', rest, n, rfl, by simpa [TopicChildren.find] using hfind, hx⟩
      · refine ⟨level, rest, n, rfl, ?_, hx⟩
        rw [TopicChildren.find, if_neg]
        · exact hfind
        · rintro rfl
          simp [h.1] at hfind
    · rintro ⟨level, rest, n, rfl, hfind, hx⟩
      rw [TopicChildren.find] at hfind
      split_ifs at hfind with hl
      · subst hl
        exact .inl (mem_map.2 ⟨(rest, x), (hnode rest).2 ⟨n, hfind, hx⟩, rfl⟩)
      · exact .inr ⟨level, rest, n, rfl, hfind, hx⟩
end

mutual
theorem TopicNode.nodup_collect : ∀ {node : TopicNode}, node.Distinct → ((node.collect own).map Prod.fst).Nodup
  | .mk name subscribers retained children, h => by
    rw [collect, map_append, nodup_append]
    refine ⟨?_, TopicChildren.nodup_collect h, ?_⟩
    · cases own (.mk name subscribers retained children) <;> simp
    · simp only [mem_map, forall_exists_index, and_imp]
      rintro _ _ x - rfl rfl _ ⟨levels, x'⟩ hr rfl
      obtain ⟨level, rest, -, rfl, -⟩ := (TopicChildren.mem_collect h).1 hr
      simp
theorem TopicChildren.nodup_collect : ∀ {children : TopicChildren}, children.Distinct →
    ((children.collect own).map Prod.fst).Nodup
  | .nil, _ => nodup_nil
  | .cons level node children, h => by
    have hnode := (TopicNode.nodup_collect h.2.1).map (cons_injective (a := level))
    rw [map_map] at hnode
    rw [TopicChildren.collect, map_append, map_map, nodup_append]
    refine ⟨hnode, TopicChildren.nodup_collect h.2.2, ?_⟩
    simp only [mem_map, forall_exists_index, and_imp]
    rintro _ r - rfl _ ⟨levels, x'⟩ hr rfl heq
    obtain ⟨level', rest, n, rfl, hfind, -⟩ := (TopicChildren.mem_collect h.2.2).1 hr
    obtain ⟨rfl, -⟩ := cons.inj heq
    simp [h.1] at hfind
end

end Collect

/-! ## The lookup by levels -/

/-- The message of a node, with the levels that remain to it. -/
def ownRetained (node : TopicNode) : List (List StdString × RetainedMessage) :=
  node.retained.toList.map fun message => ([], message)

def atLevel (level : StdString) (found : List (List StdString × RetainedMessage)) :
    List (List StdString × RetainedMessage) :=
  found.map fun r => (level :: r.1, r.2)

/-- All messages at or below a node. -/
def TopicNode.allRetained (node : TopicNode) : List (List StdString × RetainedMessage) := node.collect retained

theorem TopicChildren.collect_retained : ∀ children : TopicChildren,
    children.collect retained = children.toList.flatMap fun c => atLevel c.1 c.2.allRetained
  | .nil => rfl
  | .cons level node rest => by
    rw [collect, collect_retained rest]
    rfl

theorem TopicNode.allRetained_eq (node : TopicNode) : node.allRetained =
    ownRetained node ++ node.children.toList.flatMap fun c => atLevel c.1 c.2.allRetained := by
  obtain ⟨name, subscribers, retained, children⟩ := node
  rw [allRetained, collect, TopicChildren.collect_retained]
  rfl

/-- A topic as a publisher names it. -/
def PlainLevels (levels : List StdString) : Prop := ∀ level ∈ levels, level ≠ plusLevel ∧ level ≠ hashLevel

instance : DecidablePred PlainLevels := fun levels =>
  inferInstanceAs (Decidable (∀ level ∈ levels, level ≠ plusLevel ∧ level ≠ hashLevel))

/-- Messages are retained for such topics only. -/
def RetainedPlain (node : TopicNode) : Prop :=
  ∀ path message, retainedAt path node = some message → PlainLevels path

theorem RetainedPlain.child {node child : TopicNode} (h : RetainedPlain node)
    (hfind : node.children.find level = some child) : RetainedPlain child := by
  intro path message hmessage l hl
  exact h (level :: path) message (by rwa [retainedAt, Field.valueAt_cons_find _ hfind]) l
    (mem_cons_of_mem _ hl)

theorem RetainedPlain.wildcard_child {node child : TopicNode} (h : RetainedPlain node)
    (hlevel : level = plusLevel ∨ level = hashLevel) (hfind : node.children.find level = some child)
    (path : List StdString) : retainedAt path child = none := by
  rw [Option.eq_none_iff_forall_ne_some]
  intro message hmessage
  have hplain := h (level :: path) message (by rwa [retainedAt, Field.valueAt_cons_find _ hfind]) level
    mem_cons_self
  rcases hlevel with hl | hl
  · exact hplain.1 hl
  · exact hplain.2 hl

/-- A filter up to its first `#`. -/
def upToHash : List StdString → List StdString
  | [] => []
  | token :: tokens => if token = hashLevel then [hashLevel] else token :: upToHash tokens

/-- What `collect_retained_messages` finds, with the levels of each topic instead of its string, in a tree
    without messages below `+`. -/
def matchRetained (tokens : List StdString) (node : TopicNode) : List (List StdString × RetainedMessage) :=
  node.allRetained.filter fun r => isWildcardMatch (upToHash tokens) r.1

theorem upToHash_of_hashLast (h : HashLast tokens) : upToHash tokens = tokens := by
  induction tokens with
  | nil => rfl
  | cons token tokens ih =>
    obtain ⟨hlast, htokens⟩ := hashLast_cons.1 h
    rw [upToHash]
    split_ifs with htoken
    · rw [htoken, hlast htoken]
    · rw [ih htokens]

theorem hashLast_of_match {fs : List StdString} : ∀ {ts : List StdString}, isWildcardMatch fs ts → HashLast fs := by
  induction fs with
  | nil =>
    intro ts _
    exact hashLast_nil
  | cons f fs ih =>
    intro ts h
    by_cases hf : f = hashLevel
    · subst hf
      obtain rfl := isWildcardMatch_hash.1 h
      exact hashLast_cons.2 ⟨fun _ => rfl, hashLast_nil⟩
    · cases ts with
      | nil =>
        rw [isWildcardMatch_cons_nil hf] at h
        simp at h
      | cons t ts =>
        rw [isWildcardMatch_cons_cons hf] at h
        exact hashLast_cons.2 ⟨fun heq => absurd heq hf, ih h.2⟩

section Lookup

variable {levels : List StdString} {message : RetainedMessage}

theorem TopicNode.mem_allRetained {node : TopicNode} (hd : node.Distinct) :
    (levels, message) ∈ node.allRetained ↔ retainedAt levels node = some message := by
  rw [allRetained, mem_collect hd, retainedAt, Field.valueAt_eq]
  cases node.nodeAt levels <;> simp [retainedField]

theorem mem_matchRetained (hd : node.Distinct) : (levels, message) ∈ matchRetained tokens node ↔
      retainedAt levels node = some message ∧ isWildcardMatch (upToHash tokens) levels := by
  rw [matchRetained, mem_filter, mem_allRetained hd]

end Lookup

/-! ## No topic twice -/

/-- No levels occur twice in a list of messages. -/
def LevelsNodup (found : List (List StdString × RetainedMessage)) : Prop := (found.map Prod.fst).Nodup

theorem levelsNodup_matchRetained (tokens : List StdString) (hd : node.Distinct) :
    LevelsNodup (matchRetained tokens node) := by
  rw [LevelsNodup, matchRetained, allRetained]
  exact (filter_sublist.map Prod.fst).nodup (nodup_collect hd)

/-! ## The walk -/

theorem filter_allRetained (p : List StdString × RetainedMessage → Bool) (node : TopicNode) :
    node.allRetained.filter p = (ownRetained node).filter p ++
      node.children.toList.flatMap fun c => atLevel c.1 (c.2.allRetained.filter fun r => p (c.1 :: r.1, r.2)) := by
  rw [allRetained_eq, filter_append, filter_flatMap]
  simp only [atLevel, filter_map]
  rfl

theorem matchRetained_nil (node : TopicNode) : matchRetained [] node = ownRetained node := by
  have hbelow : ∀ level levels, isWildcardMatch [] (level :: levels) = false := by
    intro level levels
    simp [← Bool.not_eq_true, isWildcardMatch_nil]
  have hown : isWildcardMatch [] [] := isWildcardMatch_nil.2 rfl
  rw [matchRetained, filter_allRetained, ownRetained]
  cases node.retained <;> simp [upToHash, hbelow, hown, atLevel]

theorem matchRetained_hash (tokens : List StdString) (node : TopicNode) :
    matchRetained (hashLevel :: tokens) node = node.allRetained := by
  exact filter_eq_self.2 fun _ _ => isWildcardMatch_hash.2 rfl

theorem matchRetained_cons {token : StdString} (hhash : token ≠ hashLevel) (tokens : List StdString)
    (node : TopicNode) : matchRetained (token :: tokens) node = node.children.toList.flatMap fun c =>
      if token = plusLevel ∨ token = c.1 then atLevel c.1 (matchRetained tokens c.2) else [] := by
  have hcons : ∀ level levels, isWildcardMatch (token :: upToHash tokens) (level :: levels) =
      (decide (token = plusLevel ∨ token = level) && isWildcardMatch (upToHash tokens) levels) := by
    intro level levels
    rw [Bool.eq_iff_iff, isWildcardMatch_cons_cons hhash, Bool.and_eq_true, decide_eq_true_eq]
  have hown : (ownRetained node).filter (fun r => isWildcardMatch (token :: upToHash tokens) r.1) = [] := by
    unfold ownRetained
    cases node.retained <;> simp [isWildcardMatch_cons_nil hhash]
  rw [matchRetained, filter_allRetained, upToHash, if_neg hhash, hown, nil_append]
  refine flatMap_congr fun c _ => ?_
  split_ifs with hlevel <;> simp [hcons, hlevel, matchRetained, atLevel]

theorem flatMap_level {β : Type} (g : TopicNode → List β) (level : StdString) :
    ∀ {children : TopicChildren}, children.Distinct →
      (children.toList.flatMap fun c => if level = c.1 then g c.2 else []) =
        match children.find level with
        | some child => g child
        | none => []
  | .nil, _ => rfl
  | .cons level' node rest, hd => by
    have ih := flatMap_level g level hd.2.2
    rw [TopicChildren.toList, flatMap_cons, TopicChildren.find, ih]
    by_cases heq : level' = level
    · subst heq
      simp [hd.1]
    · simp [heq, Ne.symm heq]

/-! ## The strings -/

/-- The path at the end of `collect_retained_messages`: the branch for `#` names an empty path `/`. -/
def finishPath (hash : Bool) (path : StdString) : StdString :=
  if hash ∧ path = [] then [separator] else path

/-- The string that is returned for a topic, given the path to the node where the walk begins. -/
def rendered (tokens : List StdString) (path : StdString) (levels : List StdString) : StdString :=
  finishPath (decide (hashLevel ∈ tokens)) (levels.foldl childPath path)

theorem retainedBelow_perm (queue : List (TopicNode × StdString)) :
    (retainedBelow queue).Perm (queue.flatMap fun item =>
      item.1.allRetained.map fun r => (finishPath true (r.1.foldl childPath item.2), r.2)) := by
  induction queue using retainedBelow.induct with
  | case1 => simp [retainedBelow]
  | case2 node path queue ih =>
    have hstep : retainedBelow ((node, path) :: queue) =
        (ownRetained node).map (fun r => (finishPath true (r.1.foldl childPath path), r.2)) ++
          retainedBelow (queue ++ node.children.toList.map fun c => (c.2, childPath path c.1)) := by
      rw [retainedBelow, ownRetained]
      cases node.retained with
      | none => rfl
      | some message => by_cases hpath : path = [] <;> simp [finishPath, hpath]
    rw [hstep]
    refine (ih.append_left _).trans ?_
    rw [flatMap_cons, flatMap_append, allRetained_eq, map_append, map_flatMap, append_assoc, flatMap_map]
    simp only [atLevel, map_map]
    exact List.Perm.append_left _ perm_append_comm

/-- What `collect_retained_messages` returns is the lookup by levels with the rendered strings. -/
theorem collectRetainedMessages_perm (tokens : List StdString) : ∀ {node : TopicNode} (path : StdString),
    node.Distinct → RetainedPlain node → (collectRetainedMessages tokens path node).Perm
      ((matchRetained tokens node).map fun r => (rendered tokens path r.1, r.2)) := by
  induction tokens with
  | nil =>
    intro node path _ _
    rw [collectRetainedMessages, matchRetained_nil, ownRetained]
    cases node.retained with
    | none => rfl
    | some message => simp [rendered, finishPath]
  | cons token tokens ih =>
    intro node path hd hplain
    rw [collectRetainedMessages]
    by_cases hhash : token = hashLevel
    · subst hhash
      rw [if_neg (by decide), if_pos rfl, matchRetained_hash]
      refine (retainedBelow_perm _).trans ?_
      simp [rendered]
    -- the strings below a child continue its path
    have hrender : ∀ (level : StdString) (found : List (List StdString × RetainedMessage)),
        (atLevel level found).map (fun r => (rendered (token :: tokens) path r.1, r.2)) =
          found.map fun r => (rendered tokens (childPath path level) r.1, r.2) := by
      intro level found
      have hmem : hashLevel ∈ token :: tokens ↔ hashLevel ∈ tokens := by simp [Ne.symm hhash]
      rw [atLevel, map_map]
      refine map_congr_left fun r _ => ?_
      simp only [Function.comp_apply, rendered, foldl_cons, hmem]
    have hbelow : ∀ {level child}, node.children.find level = some child → ∀ path',
        (collectRetainedMessages tokens path' child).Perm
          ((matchRetained tokens child).map fun r => (rendered tokens path' r.1, r.2)) :=
      fun hfind path' => ih path' (hd.child hfind) (hplain.child hfind)
    -- there is nothing below a child with a wildcard
    have hwild : ∀ {level child}, node.children.find level = some child → level = plusLevel ∨ level = hashLevel →
        matchRetained tokens child = [] := by
      intro level child hfind hlevel
      refine eq_nil_iff_forall_not_mem.2 ?_
      rintro ⟨levels, message⟩ hmem
      have hvalue := ((mem_matchRetained (hd.child hfind)).1 hmem).1
      rw [hplain.wildcard_child hlevel hfind] at hvalue
      simp at hvalue
    have hchildren := (distinct_iff node).1 hd
    rw [matchRetained_cons hhash, map_flatMap]
    by_cases hplus : token = plusLevel
    · rw [if_pos hplus]
      refine List.Perm.flatMap_left _ fun c hc => ?_
      have hfind := TopicChildren.find_of_mem_toList hchildren hc
      have hor : token = plusLevel ∨ token = c.1 := .inl hplus
      rw [if_pos hor, hrender]
      split_ifs with hlevel
      · exact hbelow hfind _
      · rw [hwild hfind (by tauto)]
        exact List.Perm.refl _
    · rw [if_neg hplus, if_neg hhash]
      have hexact : (node.children.toList.flatMap fun c => (if token = plusLevel ∨ token = c.1 then
          atLevel c.1 (matchRetained tokens c.2) else []).map fun r => (rendered (token :: tokens) path r.1, r.2)) =
          match node.children.find token with
          | some child => (matchRetained tokens child).map fun r => (rendered tokens (childPath path token) r.1, r.2)
          | none => [] := by
        rw [← flatMap_level _ token hchildren]
        refine flatMap_congr fun c _ => ?_
        by_cases heq : token = c.1
        · simp [heq, ← hrender]
        · simp [heq, hplus]
      have hnone : ∀ child, node.children.find plusLevel = some child →
          collectRetainedMessages tokens (childPath path token) child = [] := by
        intro child hfind
        have hperm := hbelow hfind (childPath path token)
        rw [hwild hfind (.inl rfl)] at hperm
        exact hperm.eq_nil
      rw [hexact]
      cases hfind : node.children.find token with
      | none => cases hfind' : node.children.find plusLevel with
        | none => exact List.Perm.refl _
        | some child => simp [hnone child hfind']
      | some child => cases hfind' : node.children.find plusLevel with
        | none => simpa using hbelow hfind _
        | some child' => simpa [hnone child' hfind'] using hbelow hfind _

/-! ### Empty first levels -/

theorem joinTopic_singleton (level : StdString) : joinTopic [level] = level := by
  simp [joinTopic, intercalate]

theorem joinTopic_cons_cons (level next : StdString) (levels : List StdString) :
    joinTopic (level :: next :: levels) = level ++ separator :: joinTopic (next :: levels) := by
  simp [joinTopic, intercalate, intersperse]

theorem foldl_childPath {path : StdString} (hpath : path ≠ []) (levels : List StdString) :
    levels.foldl childPath path = joinTopic (path :: levels) := by
  induction levels generalizing path with
  | nil => rw [foldl_nil, joinTopic_singleton]
  | cons level levels ih =>
    have hchild : childPath path level ≠ [] := by simp [childPath, hpath]
    rw [foldl_cons, ih hchild, childPath, if_neg hpath]
    cases levels with
    | nil => rw [joinTopic_singleton, joinTopic_cons_cons, joinTopic_singleton]
    | cons next levels => simp [joinTopic_cons_cons]

theorem foldl_childPath_cons (level : StdString) (levels : List StdString) : (level :: levels).foldl childPath [] =
      if level = [] then levels.foldl childPath [] else joinTopic (level :: levels) := by
  rw [foldl_cons, childPath, if_pos rfl]
  split_ifs with hlevel
  · rw [hlevel]
  · exact foldl_childPath hlevel levels

theorem length_foldl_childPath_le (levels : List StdString) :
    (levels.foldl childPath []).length ≤ (joinTopic levels).length := by
  induction levels with
  | nil => simp
  | cons level levels ih =>
    rw [foldl_childPath_cons]
    split_ifs with hlevel
    · subst hlevel
      cases levels with
      | nil => simp
      | cons next levels =>
        rw [joinTopic_cons_cons]
        simp only [nil_append, length_cons]
        omega
    · exact le_rfl

theorem splitTopic_cons (c : UInt8) (topic : StdString) : ∃ level levels,
    splitTopic (c :: topic) = level :: levels ∧ (level = [] ↔ c = separator) := by
  have hsplit : splitTopic (c :: topic) = if c = separator then [] :: topic.splitOn separator
      else (topic.splitOn separator).modifyHead (cons c) := by
    rw [splitTopic_eq_splitOn (by simp), splitOn, splitOnP_cons_eq_if_modifyHead]
    simp [splitOn]
  by_cases hc : c = separator
  · exact ⟨[], topic.splitOn separator, by rw [hsplit, if_pos hc], by simp [hc]⟩
  · obtain ⟨level, levels, heq⟩ := exists_cons_of_ne_nil (splitOnP_ne_nil (· == separator) topic)
    refine ⟨c :: level, levels, ?_, by simp [hc]⟩
    rw [hsplit, if_neg hc, splitOn, heq, modifyHead_cons]

section Rendered

variable {tokens : List StdString} {topic : StdString}

theorem rendered_of_head_ne (htopic : topic ≠ []) (hhead : topic.head? ≠ some separator) :
    rendered tokens [] (splitTopic topic) = topic := by
  obtain ⟨c, rest, rfl⟩ := exists_cons_of_ne_nil htopic
  obtain ⟨level, levels, hsplit, hlevel⟩ := splitTopic_cons c rest
  have hne : level ≠ [] := by
    intro h
    exact hhead (by rw [hlevel.1 h]; rfl)
  have hfold : (splitTopic (c :: rest)).foldl childPath [] = c :: rest := by
    rw [hsplit, foldl_childPath_cons, if_neg hne, ← hsplit, joinTopic_splitTopic]
  rw [rendered, hfold, finishPath, if_neg (by simp)]

theorem length_foldl_splitTopic_lt (hhead : topic.head? = some separator) :
    ((splitTopic topic).foldl childPath []).length < topic.length := by
  obtain ⟨c, rest, rfl⟩ := exists_cons_of_ne_nil (l := topic) (by rintro rfl; simp at hhead)
  obtain rfl : c = separator := by simpa using hhead
  obtain ⟨level, levels, hsplit, hlevel⟩ := splitTopic_cons separator rest
  obtain rfl := hlevel.2 rfl
  have hjoin := joinTopic_splitTopic (separator :: rest)
  rw [hsplit] at hjoin ⊢
  rw [foldl_childPath_cons, if_pos rfl]
  have hle := length_foldl_childPath_le levels
  cases levels with
  | nil =>
    rw [joinTopic_singleton] at hjoin
    simp at hjoin
  | cons next levels =>
    rw [joinTopic_cons_cons, nil_append, cons.injEq] at hjoin
    rw [hjoin.2] at hle
    simpa using Nat.lt_succ_of_le hle

theorem length_rendered_le (htopic : topic ≠ []) :
    (rendered tokens [] (splitTopic topic)).length ≤ topic.length := by
  by_cases hhead : topic.head? = some separator
  · have hlt := length_foldl_splitTopic_lt hhead
    unfold rendered finishPath
    split_ifs
    · exact length_pos_of_ne_nil htopic
    · exact Nat.le_of_lt hlt
  · rw [rendered_of_head_ne htopic hhead]

theorem rendered_eq_iff (htopic : topic ≠ []) : rendered tokens [] (splitTopic topic) = topic ↔
    topic.head? ≠ some separator ∨ topic = [separator] ∧ hashLevel ∈ tokens := by
  by_cases hhead : topic.head? = some separator
  · have hlt := length_foldl_splitTopic_lt hhead
    simp only [hhead, ne_eq, not_true_eq_false, false_or]
    unfold rendered finishPath
    by_cases hslash : decide (hashLevel ∈ tokens) ∧ (splitTopic topic).foldl childPath [] = []
    · rw [if_pos hslash]
      constructor
      · intro heq
        exact ⟨heq.symm, of_decide_eq_true hslash.1⟩
      · rintro ⟨heq, -⟩
        exact heq.symm
    · rw [if_neg hslash]
      constructor
      · intro heq
        rw [heq] at hlt
        exact absurd hlt (Nat.lt_irrefl _)
      · rintro ⟨rfl, hhash⟩
        refine absurd ⟨decide_eq_true hhash, ?_⟩ hslash
        exact eq_nil_of_length_eq_zero (by simpa using hlt)
  · simp [rendered_of_head_ne htopic hhead, hhead]

theorem rendered_eq_of_length (htopic : topic ≠ [])
    (h : (rendered tokens [] (splitTopic topic)).length = topic.length) : rendered tokens [] (splitTopic topic) = topic := by
  by_cases hhead : topic.head? = some separator
  · have hlt := length_foldl_splitTopic_lt hhead
    unfold rendered finishPath at h ⊢
    split_ifs at h ⊢
    · obtain ⟨c, rfl⟩ := length_eq_one_iff.1 h.symm
      simpa using hhead.symm
    · exact absurd h (Nat.ne_of_lt hlt)
  · exact rendered_of_head_ne htopic hhead

end Rendered

/-! ## Runs -/

/-- The message was set for the topic, and neither set again nor cleared since. -/
def Retains (calls : List (TreeAct × Bool)) (topic : StdString) (message : RetainedMessage) : Prop :=
  Since
    (fun call => isValidTopic topic false ∧ message.payload ≠ [] ∧
      call.1 = .setRetained topic message.payload message.qos message.dup)
    (fun call => (∃ payload qos dup, call.1 = .setRetained topic payload qos dup) ∨
      call = (.clearRetained topic, true)) calls

/-- The topics of retained messages have no wildcards. -/
def PlainTopics (_ : TreeWorld) : TreeAct → Prop
  | .setRetained topic _ _ _ => PlainLevels (splitTopic topic)
  | _ => True

instance (w : TreeWorld) : DecidablePred (PlainTopics w)
  | .setRetained topic _ _ _ => inferInstanceAs (Decidable (PlainLevels (splitTopic topic)))
  | .subscribe _ _ | .unsubscribe _ _ _ | .clearRetained _ | .cleanExpired | .expired _ => isTrue trivial

theorem PlainLevels.hashLast {levels : List StdString} (h : PlainLevels levels) : HashLast levels :=
  fun level hlevel => (h level (dropLast_subset levels hlevel)).2

theorem ne_nil_of_isValidTopic {topic : StdString} {allowWildcard : Bool}
    (h : isValidTopic topic allowWildcard) : topic ≠ [] := by
  rintro rfl
  simp [isValidTopic] at h

/-- The messages of the tree are those that the calls have left. -/
structure Retaining (w : TreeWorld) : Prop where
  distinct : w.root.Distinct
  plain : RetainedPlain w.root
  retained : ∀ path message, retainedAt path w.root = some message ↔
    ∃ topic, splitTopic topic = path ∧ Retains w.calls topic message

theorem isValidTopic_of_retains {calls : List (TreeAct × Bool)} {topic : StdString}
    (h : Retains calls topic message) : isValidTopic topic false := by
  obtain ⟨-, -, -, -, ⟨hvalid, -⟩, -⟩ := h
  exact hvalid

/-- A call changes the message of at most one topic, and is remembered as doing so. -/
theorem Retaining.update (h : Retaining w) (hd : w'.root.Distinct) {topic : StdString}
    {changed : Prop} [Decidable changed] {found : Option RetainedMessage} (hat : ∀ path, retainedAt path w'.root =
      if path = splitTopic topic ∧ changed then found else retainedAt path w.root)
    (hplain : found ≠ none → PlainLevels (splitTopic topic))
    (hcalls : ∀ topic' message, Retains w'.calls topic' message ↔
      if topic' = topic ∧ changed then found = some message else Retains w.calls topic' message) :
    Retaining w' := by
  refine ⟨hd, ?_, ?_⟩
  · intro path message hmessage
    rw [hat] at hmessage
    split_ifs at hmessage with hpath
    · rw [hpath.1]
      exact hplain (by simp [hmessage])
    · exact h.plain path message hmessage
  · intro path message
    simp only [hcalls, hat]
    split_ifs with hpath
    · constructor
      · intro hmessage
        exact ⟨topic, hpath.1.symm, by rwa [if_pos ⟨rfl, hpath.2⟩]⟩
      · rintro ⟨topic', rfl, hretains⟩
        rwa [if_pos ⟨splitTopic_injective hpath.1, hpath.2⟩] at hretains
    · have hother : ∀ {topic'}, splitTopic topic' = path → ¬ (topic' = topic ∧ changed) := by
        rintro topic' rfl ⟨rfl, hchanged⟩
        exact hpath ⟨rfl, hchanged⟩
      rw [h.retained]
      refine exists_congr fun topic' => and_congr_right fun htopic' => ?_
      rw [if_neg (hother htopic')]

theorem retains_append_other {calls : List (TreeAct × Bool)} {call : TreeAct × Bool}
    (hset : ∀ topic payload qos dup, call.1 ≠ .setRetained topic payload qos dup)
    (hclear : ∀ topic, call ≠ (.clearRetained topic, true)) (topic : StdString)
    (message : RetainedMessage) : Retains (calls ++ [call]) topic message ↔ Retains calls topic message := by
  rw [Retains, since_append_singleton]
  simp [hset, hclear, Retains]

theorem Retaining.of_same (h : Retaining w) (hd : w'.root.Distinct)
    (hsame : ∀ path, retainedAt path w'.root = retainedAt path w.root)
    (hcalls : ∀ topic message, Retains w'.calls topic message ↔ Retains w.calls topic message) : Retaining w' :=
  @Retaining.update w w' h hd [] False _ none (by simpa using hsame) (by simp) (by simpa using hcalls)

theorem retaining_setRetained {w : TreeWorld} (h : Retaining w) {topic : StdString} {payload : List UInt8}
    {qos : Nat} {dup : Bool} (htopic : PlainLevels (splitTopic topic)) : Retaining { w with
      root := setRetainedMessage topic payload qos dup w.root
      calls := w.calls ++ [(.setRetained topic payload qos dup, true)] } := by
  refine h.update (h.distinct.call w.live (.setRetained topic payload qos dup))
    (fun path => retainedAt_setRetainedMessage path w.root topic payload qos dup) (fun _ => htopic) ?_
  intro topic' message
  rw [Retains, since_append_singleton]
  by_cases heq : topic' = topic
  · subst heq
    by_cases hvalid : isValidTopic topic' false
    · rw [if_pos ⟨rfl, hvalid, htopic.hashLast⟩, retainedOf]
      constructor
      · rintro (⟨-, hpayload, hcall⟩ | ⟨-, hnot⟩)
        · obtain ⟨-, rfl, rfl, rfl⟩ := TreeAct.setRetained.inj hcall
          rw [if_neg hpayload]
        · exact absurd (.inl ⟨payload, qos, dup, rfl⟩) hnot
      · intro hmessage
        split_ifs at hmessage with hpayload
        cases hmessage
        exact .inl ⟨hvalid, hpayload, rfl⟩
    · rw [if_neg fun hall => hvalid hall.2.1]
      constructor
      · rintro (⟨hvalid', -⟩ | ⟨hretains, -⟩)
        · exact absurd hvalid' hvalid
        · exact hretains
      · intro hretains
        exact absurd (isValidTopic_of_retains hretains) hvalid
  · rw [if_neg fun hall => heq hall.1]
    simp [Ne.symm heq, Retains]

theorem retaining_clearRetained {w : TreeWorld} (h : Retaining w) {topic : StdString} : Retaining { w with
      root := (clearRetainedMessage topic w.root).1
      calls := w.calls ++ [(.clearRetained topic, (clearRetainedMessage topic w.root).2)] } := by
  refine h.update (h.distinct.call w.live (.clearRetained topic))
    (fun path => retainedAt_clearRetainedMessage path w.root topic) (fun hne => absurd rfl hne) ?_
  intro topic' message
  rw [Retains, since_append_singleton]
  split_ifs with hcleared
  · simp [hcleared.1, hcleared.2]
  · simpa [Retains] using fun _ heq => by simpa using not_and.1 hcleared (Eq.symm heq)

theorem retaining_step {act : TreeAct} (h : Retaining w) (hok : PlainTopics w act)
    (hs : treeStep w act = some w') : Retaining w' := by
  obtain ⟨-, rfl⟩ := treeStep_eq hs
  cases act with
  | subscribe f sub =>
    exact h.of_same (h.distinct.call _ _) (fun path => retainedAt_subscribe w.live path w.root f sub)
      (retains_append_other (by simp) (by simp))
  | unsubscribe f session shareName =>
    exact h.of_same (h.distinct.call _ _)
      (fun path => retainedAt_unsubscribe w.live path w.root f session shareName)
      (retains_append_other (by simp) (by simp))
  | setRetained topic payload qos dup => exact retaining_setRetained h hok
  | clearRetained topic => exact retaining_clearRetained h
  | cleanExpired =>
    exact h.of_same (h.distinct.call _ _) (fun path => retainedAt_cleanExpired w.live path w.root)
      (retains_append_other (by simp) (by simp))
  | expired session =>
    exact h.of_same h.distinct (fun path => rfl) (retains_append_other (by simp) (by simp))

theorem retaining_of_reachable {w : TreeWorld} (h : Reachable treeStep PlainTopics (· = {}) w) : Retaining w := by
  apply h.invariant
  · rintro w rfl
    refine ⟨distinct_new _, ?_, ?_⟩
    · intro path message hmessage
      rw [retainedAt, retainedField.valueAt_new] at hmessage
      exact absurd hmessage (by simp [retainedField])
    · intro path message
      rw [retainedAt, retainedField.valueAt_new]
      constructor
      · intro hmessage
        exact absurd hmessage (by simp [retainedField])
      · rintro ⟨topic, -, hcalls⟩
        exact absurd hcalls not_since_nil
  · intro w act w' hw hok hs
    exact retaining_step hw hok hs

section Exact

variable {w : TreeWorld} {f : StdString}

/-- The topics with a message that the lookup finds, with the message. -/
def foundTopics (f : StdString) (root : TopicNode) : List (StdString × RetainedMessage) :=
  (matchRetained (splitTopic f) root).map fun r => (joinTopic r.1, r.2)

theorem Retaining.mem_match (h : Retaining w) {levels : List StdString} :
    (levels, message) ∈ matchRetained (splitTopic f) w.root ↔ ∃ topic, splitTopic topic = levels ∧
      Retains w.calls topic message ∧ isWildcardMatch (upToHash (splitTopic f)) levels := by
  rw [mem_matchRetained h.distinct, h.retained]
  constructor
  · rintro ⟨⟨topic, htopic, hretains⟩, hmatch⟩
    exact ⟨topic, htopic, hretains, hmatch⟩
  · rintro ⟨topic, htopic, hretains, hmatch⟩
    exact ⟨⟨topic, htopic, hretains⟩, hmatch⟩

theorem Retaining.mem_foundTopics (h : Retaining w) {topic : StdString} :
    (topic, message) ∈ foundTopics f w.root ↔ Retains w.calls topic message ∧
      isWildcardMatch (upToHash (splitTopic f)) (splitTopic topic) := by
  simp only [foundTopics, mem_map, Prod.exists, Prod.mk.injEq]
  constructor
  · rintro ⟨levels, message', hmem, rfl, rfl⟩
    obtain ⟨topic, rfl, hretains, hmatch⟩ := h.mem_match.1 hmem
    rw [joinTopic_splitTopic]
    exact ⟨hretains, hmatch⟩
  · rintro ⟨hretains, hmatch⟩
    exact ⟨splitTopic topic, message, h.mem_match.2 ⟨topic, rfl, hretains, hmatch⟩,
      joinTopic_splitTopic topic, rfl⟩

theorem Retaining.nodup_foundTopics (h : Retaining w) : (foundTopics f w.root).Nodup := by
  have hlevels := List.Nodup.of_map _ (levelsNodup_matchRetained (splitTopic f) h.distinct)
  refine List.Nodup.map_on ?_ hlevels
  rintro ⟨levels, message⟩ hr ⟨levels', message'⟩ hr' heq
  obtain ⟨topic, rfl, -⟩ := h.mem_match.1 hr
  obtain ⟨topic', rfl, -⟩ := h.mem_match.1 hr'
  simp only [joinTopic_splitTopic, Prod.mk.injEq] at heq
  rw [heq.1, heq.2]

theorem Retaining.getRetainedMessages_perm (h : Retaining w) (hf : isValidTopicFilter f) :
    (getRetainedMessages f w.root).Perm
      ((foundTopics f w.root).map fun r => (rendered (splitTopic f) [] (splitTopic r.1), r.2)) := by
  rw [getRetainedMessages, if_pos hf]
  refine (collectRetainedMessages_perm _ [] h.distinct h.plain).trans (List.Perm.of_eq ?_)
  rw [foundTopics, map_map]
  refine map_congr_left ?_
  rintro ⟨levels, message⟩ hr
  obtain ⟨topic, rfl, -⟩ := h.mem_match.1 hr
  simp [joinTopic_splitTopic]

/-- A list of topics whose strings are all at most as long as they should be, and that is right as a
    whole, is right for each topic. -/
theorem eq_of_perm_of_length_le {α : Type} {l : List α} {g k : α → StdString}
    (hperm : (l.map g).Perm (l.map k)) (hle : ∀ r ∈ l, (g r).length ≤ (k r).length) :
    ∀ r ∈ l, (g r).length = (k r).length := by
  intro r hr
  by_contra hne
  have hlt : (l.map fun r => (g r).length).sum < (l.map fun r => (k r).length).sum :=
    sum_lt_sum _ _ hle ⟨r, hr, by have := hle r hr; omega⟩
  have hsum := (hperm.map length).sum_eq
  simp only [map_map, Function.comp_def] at hsum
  omega

theorem hash_mem_iff (h : HashLast tokens) : hashLevel ∈ tokens ↔ tokens.getLast? = some hashLevel := by
  constructor
  · intro hmem
    have hne := ne_nil_of_mem hmem
    rw [← dropLast_append_getLast hne, mem_append, mem_singleton] at hmem
    rcases hmem with hmem | hmem
    · exact absurd rfl (h _ hmem)
    · rw [getLast?_eq_some_getLast hne, ← hmem]
  · exact mem_of_getLast?

end Exact

/-- After every run in which messages are retained for topics without wildcards,
    `get_retained_messages` is exact for a filter, without duplicates and under the names of the topics,
    precisely if every topic with a message that matches the filter up to its first `#` matches the
    whole filter, and does not begin with the separator; but `/` itself may match a filter that ends
    with `#`. -/
theorem getRetainedMessages_exact_iff {w : TreeWorld} (h : Reachable treeStep PlainTopics (· = {}) w)
    {f : StdString} (hf : isValidTopicFilter f = true) :
    ((getRetainedMessages f w.root).Nodup ∧
      ∀ topic message, (topic, message) ∈ getRetainedMessages f w.root ↔
        Retains w.calls topic message ∧ isWildcardMatch (splitTopic f) (splitTopic topic) = true) ↔
    ∀ topic message, Retains w.calls topic message →
      isWildcardMatch (upToHash (splitTopic f)) (splitTopic topic) = true →
      HashLast (splitTopic f) ∧ (topic.head? ≠ some separator ∨
        topic = [separator] ∧ (splitTopic f).getLast? = some hashLevel) := by
  have hw := retaining_of_reachable h
  have hperm := hw.getRetainedMessages_perm hf
  have hne : ∀ {topic message}, Retains w.calls topic message → topic ≠ [] := fun hretains =>
    ne_nil_of_isValidTopic (isValidTopic_of_retains hretains)
  constructor
  · rintro ⟨hnodup, hmem⟩ topic message hretains hmatch
    have hfound := hw.mem_foundTopics.2 ⟨hretains, hmatch⟩
    -- something is returned for the topic, so the filter matches a topic and ends with its `#`
    have hlast : HashLast (splitTopic f) := by
      have hsome := hperm.mem_iff.2 (mem_map_of_mem hfound)
      exact hashLast_of_match ((hmem _ _).1 hsome).2
    refine ⟨hlast, ?_⟩
    have hsame : (getRetainedMessages f w.root).Perm (foundTopics f w.root) := by
      rw [perm_ext_iff_of_nodup hnodup hw.nodup_foundTopics]
      rintro ⟨topic', message'⟩
      rw [hmem, hw.mem_foundTopics, upToHash_of_hashLast hlast]
    -- no string is longer than its topic, so none can be shorter
    have hnames := (hperm.symm.trans hsame).map Prod.fst
    rw [map_map] at hnames
    have hlength := eq_of_perm_of_length_le hnames (by
      rintro ⟨topic', message'⟩ hr
      exact length_rendered_le (hne (hw.mem_foundTopics.1 hr).1)) _ hfound
    rw [← hash_mem_iff hlast, ← rendered_eq_iff (hne hretains)]
    exact rendered_eq_of_length (hne hretains) hlength
  · intro hcond
    have hsame : (getRetainedMessages f w.root).Perm (foundTopics f w.root) := by
      refine hperm.trans (List.Perm.of_eq ?_)
      refine (map_congr_left ?_).trans (map_id _)
      rintro ⟨topic, message⟩ hr
      obtain ⟨hretains, hmatch⟩ := hw.mem_foundTopics.1 hr
      obtain ⟨hlast, hname⟩ := hcond topic message hretains hmatch
      rw [← hash_mem_iff hlast] at hname
      exact congrArg (·, message) ((rendered_eq_iff (hne hretains)).2 hname)
    refine ⟨hsame.nodup_iff.2 hw.nodup_foundTopics, ?_⟩
    intro topic message
    rw [hsame.mem_iff, hw.mem_foundTopics]
    refine and_congr_right fun hretains => ?_
    constructor
    · intro hmatch
      rwa [upToHash_of_hashLast (hcond topic message hretains hmatch).1] at hmatch
    · intro hmatch
      rwa [upToHash_of_hashLast (hashLast_of_match hmatch)]

/-- A message for `a/b`, looked up with `a/#`. -/
theorem getRetainedMessages_exact_below : ∃ w, Reachable treeStep PlainTopics (· = {}) w ∧
    Retains w.calls [97, 47, 98] { payload := [1], qos := 0, dup := false } ∧
    ∀ topic message, (topic, message) ∈ getRetainedMessages [97, 47, 35] w.root ↔
      Retains w.calls topic message ∧ isWildcardMatch (splitTopic [97, 47, 35]) (splitTopic topic) := by
  refine exists_reached [.setRetained [97, 47, 98] [1] 0 false] rfl (by decide +kernel) fun w hreach hrun => ?_
  have hfacts : w.calls = [(.setRetained [97, 47, 98] [1] 0 false, true)] := of_run hrun (by decide +kernel)
  have hfilter : isValidTopicFilter [97, 47, 35] := by decide +kernel
  refine ⟨?_, ((getRetainedMessages_exact_iff hreach hfilter).2 ?_).2⟩
  · rw [hfacts]
    exact ⟨[], _, [], rfl, ⟨by decide +kernel, by simp, rfl⟩, by simp⟩
  · intro topic message hretains _
    rw [hfacts] at hretains
    obtain ⟨before, call, after, heq, ⟨-, -, hcall⟩, -⟩ := hretains
    obtain rfl : call = (.setRetained [97, 47, 98] [1] 0 false, true) := by
      have hmem : call ∈ before ++ call :: after := by simp
      rw [← heq] at hmem
      exact mem_singleton.1 hmem
    obtain ⟨rfl, -⟩ := TreeAct.setRetained.inj hcall
    exact ⟨by decide +kernel, .inl (by decide +kernel)⟩

/-- The message for `/a` is returned as one for `a`; and the filter `$share/g/#/x`, which matches
    nothing, returns the message for `$share/g/b`. -/
theorem getRetainedMessages_loses_first_level : ∃ w message message',
    Reachable treeStep PlainTopics (· = {}) w ∧
    Retains w.calls [47, 97] message ∧ isValidTopicFilter [47, 97] = true ∧
    isWildcardMatch (splitTopic [47, 97]) (splitTopic [47, 97]) = true ∧
    getRetainedMessages [47, 97] w.root = [([97], message)] ∧
    isValidTopicFilter (shareLevel ++ [47, 103, 47, 35, 47, 120]) = true ∧
    isWildcardMatch (splitTopic (shareLevel ++ [47, 103, 47, 35, 47, 120]))
      (splitTopic (shareLevel ++ [47, 103, 47, 98])) = false ∧
    getRetainedMessages (shareLevel ++ [47, 103, 47, 35, 47, 120]) w.root =
      [(shareLevel ++ [47, 103, 47, 98], message')] := by
  obtain ⟨w, hrun⟩ := Option.isSome_iff_exists.1
    (show (runFrom (guarded treeStep PlainTopics) {} [.setRetained [47, 97] [1] 0 false,
      .setRetained (shareLevel ++ [47, 103, 47, 98]) [2] 0 false]).isSome by decide +kernel)
  have hcalls : w.calls = [(.setRetained [47, 97] [1] 0 false, true),
    (.setRetained (shareLevel ++ [47, 103, 47, 98]) [2] 0 false, true)] := of_run hrun (by decide +kernel)
  refine ⟨w, ⟨[1], 0, false⟩, ⟨[2], 0, false⟩, Reachable.runGuarded _ (.start rfl) hrun, ?_, by decide +kernel,
    by decide +kernel, of_run hrun (by decide +kernel), by decide +kernel, by decide +kernel, of_run hrun
      (by decide +kernel)⟩
  rw [hcalls]
  refine ⟨[], _, [_], rfl, ⟨by decide +kernel, by simp, rfl⟩, ?_⟩
  rintro call hcall (⟨payload, qos, dup, heq⟩ | heq)
  · rw [mem_singleton.1 hcall] at heq
    exact absurd (TreeAct.setRetained.inj heq).1 (by decide +kernel)
  · rw [mem_singleton.1 hcall] at heq
    simp at heq

end HvVerified.Mqtt
