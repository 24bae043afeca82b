import HvVerified.Mqtt.Protocol

/-!
# `mqtt/topic_tree.cpp`: subscriptions and retained messages

A `weak_ptr` to a session is the number of the session, and `live` says which of them can still be
locked. The children of a node are an `unordered_map` in the source; here they are kept in the order
in which they were created. `get_or_create_node` returns a pointer through which the caller changes the
node: `withNode` takes that change as an argument.
-/

namespace HvVerified.Mqtt

/-- The number of a session. -/
abbrev SessionId := Nat

/-- `SubscriptionInfo`, the entry of a session at a node. -/
structure SubscriptionInfo where
  session : SessionId
  qos : Nat
  isShared : Bool := false
  shareName : StdString := []
  deriving DecidableEq, Repr

/-- `RetainedMessage`; the time is left out. -/
structure RetainedMessage where
  payload : List UInt8
  qos : Nat
  dup : Bool
  deriving DecidableEq, Repr

mutual
inductive TopicNode where
  | mk (name : StdString) (subscribers : List SubscriptionInfo) (retained : Option RetainedMessage)
      (children : TopicChildren)
inductive TopicChildren where
  | nil
  | cons (level : StdString) (node : TopicNode) (rest : TopicChildren)
end

namespace TopicNode

/-- The subscriptions at a node. -/
def subscribers : TopicNode → List SubscriptionInfo
  | mk _ subscribers _ _ => subscribers

/-- The retained message at a node. -/
def retained : TopicNode → Option RetainedMessage
  | mk _ _ retained _ => retained

/-- The children of a node. -/
def children : TopicNode → TopicChildren
  | mk _ _ _ children => children

def setSubscribers (subscribers : List SubscriptionInfo) : TopicNode → TopicNode
  | mk name _ retained children => mk name subscribers retained children

def setRetained (retained : Option RetainedMessage) : TopicNode → TopicNode
  | mk name subscribers _ children => mk name subscribers retained children

def setChildren (children : TopicChildren) : TopicNode → TopicNode
  | mk name subscribers retained _ => mk name subscribers retained children

/-- A node without subscriptions, message and children. -/
def new (name : StdString) : TopicNode := mk name [] none .nil

end TopicNode

namespace TopicChildren

/-- The child at a level. -/
def find (level : StdString) : TopicChildren → Option TopicNode
  | nil => none
  | cons level' node rest => if level' = level then some node else find level rest

/-- A child is replaced, or added at the end. -/
def set (level : StdString) (node : TopicNode) : TopicChildren → TopicChildren
  | nil => cons level node nil
  | cons level' node' rest =>
    if level' = level then cons level' node rest else cons level' node' (set level node rest)

/-- The children with their levels, in the order of iteration. -/
def toList : TopicChildren → List (StdString × TopicNode)
  | nil => []
  | cons level node rest => (level, node) :: toList rest

end TopicChildren

mutual
def TopicNode.count : TopicNode → Nat
  | .mk _ _ _ children => children.count + 1
def TopicChildren.count : TopicChildren → Nat
  | .nil => 0
  | .cons _ node rest => node.count + rest.count
end

/-! ## Topics -/

/-- The levels `+`, `#` and `$share`, and the separator. -/
def plusLevel : StdString := [43]
def hashLevel : StdString := [35]
def shareLevel : StdString := [36, 115, 104, 97, 114, 101]
def separator : UInt8 := 47

/-- The calls of `std::getline`: a last line that is empty is not seen. -/
def getlines (token : StdString) : StdString → List StdString
  | [] => if token = [] then [] else [token]
  | c :: stream => if c = separator then token :: getlines [] stream else getlines (token ++ [c]) stream

/-- `split_topic`: the levels of a topic, with the empty ones. -/
def splitTopic (topic : StdString) : List StdString :=
  getlines [] topic ++ if topic.getLast? = some separator then [[]] else []

/-- `is_valid_topic_level`: wildcards stand alone. -/
def isValidTopicLevel (level : StdString) (allowWildcard : Bool) : Bool :=
  if level = [] then true
  else if allowWildcard && (level = plusLevel || level = hashLevel) then true
  else if level.any (fun c => c = 35 || c = 43) then false
  else level.length ≤ 65535

/-- The loop of `is_valid_topic` over the levels that follow the first one. -/
def isValidTopicLoop (allowWildcard : Bool) : List StdString → Bool
  | [] => true
  | token :: tokens =>
    isValidTopicLevel token allowWildcard && (token ≠ hashLevel || tokens = []) &&
      isValidTopicLoop allowWildcard tokens

/-- `is_valid_topic`. After `$share` only the name of the share is looked at. -/
def isValidTopic (topic : StdString) (allowWildcard : Bool) : Bool :=
  if topic = [] then false
  else
    match splitTopic topic with
    | [] => true
    | token :: tokens =>
      isValidTopicLevel token allowWildcard && (token ≠ hashLevel || tokens = []) &&
        if token = shareLevel then tokens.length ≥ 2 && tokens.head? ≠ some []
        else isValidTopicLoop allowWildcard tokens

/-- `is_valid_topic_filter` -/
def isValidTopicFilter (topicFilter : StdString) : Bool := isValidTopic topicFilter true

/-! ## Nodes -/

/-- The loop of `get_or_create_node`, and the change `f` of the node that it returns. The nodes that
    were created before it returns `nullptr` stay. -/
def withNodeLoop (create : Bool) (f : TopicNode → TopicNode) :
    List StdString → TopicNode → TopicNode × Bool
  | [], current => (f current, true)
  | token :: tokens, current =>
    if token = hashLevel ∧ tokens ≠ [] then (current, false)
    else
      match current.children.find token with
      | none =>
        if create then
          let (child, found) := withNodeLoop create f tokens (.new token)
          (current.setChildren (current.children.set token child), found)
        else (current, false)
      | some node =>
        let (child, found) := withNodeLoop create f tokens node
        (current.setChildren (current.children.set token child), found)

/-- `get_or_create_node`, and the change `f` of the node. -/
def withNode (create : Bool) (f : TopicNode → TopicNode) (tokens : List StdString) (root : TopicNode) :
    TopicNode × Bool :=
  if tokens = [] then (root, false) else withNodeLoop create f tokens root

section

variable (live : SessionId → Bool)

/-- `TopicNode::add_subscriber`, unless the same entry is there. -/
def addSubscriber (sub : SubscriptionInfo) (node : TopicNode) : TopicNode :=
  if node.subscribers.any (fun s => live s.session && s = sub) then node
  else node.setSubscribers (node.subscribers ++ [sub])

/-- `TopicNode::remove_subscriber`; an empty name stands for every share. -/
def removeSubscriber (session : SessionId) (shareName : StdString) (node : TopicNode) : TopicNode :=
  node.setSubscribers (node.subscribers.filter fun s =>
    !(live s.session && s.session = session && (shareName = [] || s.shareName = shareName)))

/-- What `subscribe` does at the node of the filter. -/
def subscribeNode (sub : SubscriptionInfo) (node : TopicNode) : TopicNode :=
  let same := node.subscribers.any fun s =>
    live s.session && s.session = sub.session && s.isShared = sub.isShared && s.shareName = sub.shareName
  addSubscriber live sub (if same then removeSubscriber live sub.session sub.shareName node else node)

/-- `TopicTree::subscribe`: the tree, and whether the filter is accepted. -/
def subscribe (topicFilter : StdString) (sub : SubscriptionInfo) (root : TopicNode) : TopicNode × Bool :=
  if isValidTopicFilter topicFilter then
    withNode true (subscribeNode live sub) (splitTopic topicFilter) root
  else (root, false)

/-- `TopicTree::unsubscribe` -/
def unsubscribe (topicFilter : StdString) (session : SessionId) (shareName : StdString)
    (root : TopicNode) : TopicNode × Bool :=
  if isValidTopicFilter topicFilter then
    withNode false (removeSubscriber live session shareName) (splitTopic topicFilter) root
  else (root, false)

/-! ## Matching -/

/-- The subscriptions at a node that a published message looks at: shared ones are passed over. -/
def publishedTo (node : TopicNode) : List SubscriptionInfo := node.subscribers.filter fun s => !s.isShared

/-- The subscriptions with `#` below a node. -/
def hashSubscribers (node : TopicNode) : List SubscriptionInfo :=
  match node.children.find hashLevel with
  | some child => publishedTo child
  | none => []

/-- `collect_subscribers`: the nodes for the level, for `+` and for `#`. -/
def collectSubscribers : List StdString → TopicNode → List SubscriptionInfo
  | [], node => publishedTo node ++ hashSubscribers node
  | token :: tokens, node =>
    (match node.children.find token with
      | some child => collectSubscribers tokens child
      | none => []) ++
    (match node.children.find plusLevel with
      | some child => collectSubscribers tokens child
      | none => []) ++
    hashSubscribers node

/-- The subscriptions of live sessions, of each session the first. -/
def uniqueSessions : List SessionId → List SubscriptionInfo → List SubscriptionInfo
  | _, [] => []
  | seen, sub :: subs =>
    if live sub.session && !seen.contains sub.session then sub :: uniqueSessions (sub.session :: seen) subs
    else uniqueSessions seen subs

/-- `TopicTree::get_subscribers`: one subscription for each live session. -/
def getSubscribers (topic : StdString) (root : TopicNode) : List SubscriptionInfo :=
  if isValidTopic topic false then uniqueSessions live [] (collectSubscribers (splitTopic topic) root) else []

end

/-! ## Retained messages -/

/-- `TopicTree::set_retained_message`; an empty payload clears the message. -/
def setRetainedMessage (topic : StdString) (payload : List UInt8) (qos : Nat) (dup : Bool)
    (root : TopicNode) : TopicNode :=
  if isValidTopic topic false then
    (withNode true (TopicNode.setRetained (if payload = [] then none else some { payload, qos, dup }))
      (splitTopic topic) root).1
  else root

/-- The topic of a child. -/
def childPath (path level : StdString) : StdString :=
  if path = [] then level else path ++ separator :: level

/-- How many nodes are below those in the queue. -/
def queueCount (queue : List (TopicNode × StdString)) : Nat := (queue.map fun item => item.1.count).sum

theorem queueCount_children (path : StdString) : ∀ children : TopicChildren,
    queueCount (children.toList.map fun c => (c.2, childPath path c.1)) = children.count
  | .nil => rfl
  | .cons level node rest => by
    have ih := queueCount_children path rest
    simp only [queueCount, TopicChildren.toList, List.map_cons, List.sum_cons, TopicChildren.count] at ih ⊢
    rw [ih]

/-- The queue of `collect_retained_messages` at the level `#`. -/
def retainedBelow (queue : List (TopicNode × StdString)) : List (StdString × RetainedMessage) :=
  match queue with
  | [] => []
  | (node, path) :: queue =>
    (match node.retained with
      | some message => [(if path = [] then [separator] else path, message)]
      | none => []) ++
    retainedBelow (queue ++ node.children.toList.map fun c => (c.2, childPath path c.1))
termination_by queueCount queue
decreasing_by
  obtain ⟨name, subscribers, retained, children⟩ := node
  rw [queueCount, List.map_append, List.sum_append, ← queueCount, ← queueCount, queueCount_children]
  simp only [queueCount, List.map_cons, List.sum_cons, TopicNode.count, TopicNode.children]
  omega

/-- `collect_retained_messages`. An empty path gets no separator, so that empty first levels are lost. -/
def collectRetainedMessages : List StdString → StdString → TopicNode → List (StdString × RetainedMessage)
  | [], path, node =>
    match node.retained with
    | some message => [(path, message)]
    | none => []
  | token :: tokens, path, node =>
    if token = plusLevel then
      node.children.toList.flatMap fun c =>
        if c.1 ≠ plusLevel ∧ c.1 ≠ hashLevel then collectRetainedMessages tokens (childPath path c.1) c.2
        else []
    else if token = hashLevel then retainedBelow [(node, path)]
    else
      (match node.children.find token with
        | some child => collectRetainedMessages tokens (childPath path token) child
        | none => []) ++
      (match node.children.find plusLevel with
        | some child => collectRetainedMessages tokens (childPath path token) child
        | none => [])

/-- `TopicTree::get_retained_messages`: the topics that match the filter, and their messages. -/
def getRetainedMessages (topicFilter : StdString) (root : TopicNode) : List (StdString × RetainedMessage) :=
  if isValidTopicFilter topicFilter then collectRetainedMessages (splitTopic topicFilter) [] root else []

/-- `TopicTree::clear_retained_message` -/
def clearRetainedMessage (topic : StdString) (root : TopicNode) : TopicNode × Bool :=
  if isValidTopic topic false then withNode false (TopicNode.setRetained none) (splitTopic topic) root
  else (root, false)

/-! ## The flat matcher -/

/-- The loop of `is_wildcard_match` over the levels of the filter, if it returns. -/
def isWildcardMatchLoop : List StdString → List StdString → Option Bool
  | [], _ => none
  | filterToken :: filterTokens, topicTokens =>
    if filterToken = hashLevel then some (filterTokens = [])
    else if filterToken = plusLevel then
      match topicTokens with
      | [] => some false
      | _ :: topicTokens => isWildcardMatchLoop filterTokens topicTokens
    else
      match topicTokens with
      | [] => some false
      | topicToken :: topicTokens =>
        if filterToken ≠ topicToken then some false else isWildcardMatchLoop filterTokens topicTokens

/-- `is_wildcard_match` -/
def isWildcardMatch (filterTokens topicTokens : List StdString) : Bool :=
  match isWildcardMatchLoop filterTokens topicTokens with
  | some result => result
  | none => filterTokens.length = topicTokens.length || filterTokens.getLast? = some hashLevel

/-! ## Expired sessions -/

mutual
def TopicNode.cleanExpired (live : SessionId → Bool) : TopicNode → TopicNode
  | .mk name subscribers retained children =>
    .mk name (subscribers.filter fun s => live s.session) retained (children.cleanExpired live)
def TopicChildren.cleanExpired (live : SessionId → Bool) : TopicChildren → TopicChildren
  | .nil => .nil
  | .cons level node rest => .cons level (node.cleanExpired live) (rest.cleanExpired live)
end

/-! ## Statistics -/

/-- `Statistics` -/
structure Statistics where
  totalNodes : Nat := 0
  totalSubscribers : Nat := 0
  totalRetainedMessages : Nat := 0
  maxDepth : Nat := 0
  deriving DecidableEq

mutual
def TopicNode.collectStatistics (depth : Nat) (stats : Statistics) : TopicNode → Statistics
  | .mk _ subscribers retained children =>
    children.collectStatistics (depth + 1) {
      totalNodes := stats.totalNodes + 1
      totalSubscribers := stats.totalSubscribers + subscribers.length
      totalRetainedMessages := stats.totalRetainedMessages + if retained.isSome then 1 else 0
      maxDepth := max stats.maxDepth depth }
def TopicChildren.collectStatistics (depth : Nat) (stats : Statistics) : TopicChildren → Statistics
  | .nil => stats
  | .cons _ node rest => rest.collectStatistics depth (node.collectStatistics depth stats)
end

/-- `TopicTree::get_statistics` -/
def getStatistics (root : TopicNode) : Statistics := root.collectStatistics 0 {}

/-! ## Runs -/

/-- A call of the tree, or the end of a session. -/
inductive TreeAct where
  | subscribe (topicFilter : StdString) (sub : SubscriptionInfo)
  | unsubscribe (topicFilter : StdString) (session : SessionId) (shareName : StdString)
  | setRetained (topic : StdString) (payload : List UInt8) (qos : Nat) (dup : Bool)
  | clearRetained (topic : StdString)
  | cleanExpired
  | expired (session : SessionId)
  deriving DecidableEq

/-- The tree, the sessions that have not ended, and the calls that were made with what they returned. -/
structure TreeWorld where
  root : TopicNode := .new [separator]
  live : SessionId → Bool := fun _ => true
  calls : List (TreeAct × Bool) := []

/-- The tree after a call and what the call returns, `true` if it returns nothing. -/
def treeCall (live : SessionId → Bool) (root : TopicNode) : TreeAct → TopicNode × Bool
  | .subscribe topicFilter sub => subscribe live topicFilter sub root
  | .unsubscribe topicFilter session shareName => unsubscribe live topicFilter session shareName root
  | .setRetained topic payload qos dup => (setRetainedMessage topic payload qos dup root, true)
  | .clearRetained topic => clearRetainedMessage topic root
  | .cleanExpired => (root.cleanExpired live, true)
  | .expired _ => (root, true)

/-- Who subscribes or unsubscribes holds a pointer to the session. -/
def TreeAct.callable (live : SessionId → Bool) : TreeAct → Bool
  | .subscribe _ sub => live sub.session
  | .unsubscribe _ session _ => live session
  | _ => true

/-- The sessions after an action. -/
def TreeAct.liveAfter (live : SessionId → Bool) : TreeAct → SessionId → Bool
  | .expired session => Function.update live session false
  | _ => live

/-- A call that its caller can make. -/
def treeStep (world : TreeWorld) (act : TreeAct) : Option TreeWorld :=
  if act.callable world.live then
    let result := treeCall world.live world.root act
    some { root := result.1, live := act.liveAfter world.live, calls := world.calls ++ [(act, result.2)] }
  else none

end HvVerified.Mqtt
