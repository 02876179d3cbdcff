import Reldex.DriverContract

/-! The object browser's tree. Its nodes are filled one at a time from a metadata session of its
own: a node that is expanded waits in a queue, the one in front is fetched, and the session's
signals say how that went. Nodes are referred to by pointer from the queue, the active fetch and
the columns pane while a refresh destroys whole subtrees. -/
namespace Reldex.ObjectBrowser

inductive NodeKind where
  | connection | schema | group | object | columnsNode | column
  deriving DecidableEq, Repr

inductive ObjectKind where
  | tables | views | packages | packageBodies | procedures | functions | triggers | sequences | synonyms
  deriving DecidableEq, Repr

def groups : List (ObjectKind × String) :=
  [(.tables,"Tables"),(.views,"Views"),(.packages,"Packages"),(.packageBodies,"Package Bodies"),
    (.procedures,"Procedures"),(.functions,"Functions"),(.triggers,"Triggers"),(.sequences,"Sequences"),
    (.synonyms,"Synonyms")]

/-- A node. `id` is the object itself, never that of another; `parents` are its parent, the parent's
parent and so on below the root. -/
structure Node where
  id : Nat
  parents : List Nat
  kind : NodeKind
  name : String := ""
  secondary : String := ""
  objectKind : Option ObjectKind := none
  schema : String := ""
  objectName : String := ""
  isTableLike : Bool := false
  columnPosition : String := ""
  columnType : String := ""
  columnNullable : String := ""
  childrenLoaded : Bool := false
  loading : Bool := false
  errorText : Option String := none
  truncated : Bool := false
  shownCount : Option Nat := none
  filterText : String := ""
  deriving DecidableEq, Repr

def describeError : Option ErrorKind → String
  | some .permission => "You do not have permission to view this."
  | some .connection | some .networkLost => "The connection was lost."
  | some .timeout => "The request timed out."
  | some .cancelled => "The request was cancelled."
  | some .authentication => "Authentication failed."
  | some .configuration => "The connection is not configured correctly."
  | some .unsupported => "This is not supported yet."
  | _ => "This could not be loaded."

inductive MetadataTarget where
  | schemas
  | objectsOfKind (kind : Option ObjectKind)
  | columnsOf
  deriving DecidableEq, Repr

structure MetadataRequest where
  target : MetadataTarget
  schema : String
  table : String
  nameFilter : Option String
  limit : Nat
  deriving DecidableEq, Repr

/-- The states of the session that matter here; `usable` is every other. -/
inductive SessionState where
  | opening | usable | closing | closed
  deriving DecidableEq, Repr

inductive Request where
  | opens | executes | closes
  deriving DecidableEq, Repr

/-- The metadata session. `opened` says that it has an id, `outstanding` which of its requests are
not answered yet. -/
structure Session where
  opened : Bool
  state : SessionState
  outstanding : List Request
  error : Option ErrorKind
  deriving DecidableEq, Repr

structure ColumnRow where
  position : String
  name : String
  type : String
  nullable : String
  deriving DecidableEq, Repr

structure ColumnsPane where
  node : Option Nat
  title : String
  rows : List ColumnRow
  loading : Bool
  error : String
  deriving DecidableEq, Repr

/-- What the session and the driver make of the calls of one step: which are refused, and with what
error. -/
structure Outcome where
  opens : Option ErrorKind
  executes : Nat → Option ErrorKind
  closes : Bool
  prepares : MetadataRequest → Bool
  reclassify : MetadataRequest → ErrorKind → ErrorKind

/-- The model on a valid bridge. `late` are the unanswered requests of sessions that were let go, whose
signals are heard until they are deleted. `applied` is the history of rows and errors that were
written to a node, each with whether the node was in the tree then. -/
structure Browser where
  nodes : List Node
  nextNode : Nat
  session : Option Session
  late : List Request
  sessionClosing : Bool
  sessionOpenFailed : Bool
  sessionReady : Bool
  closePending : Bool
  pendingQueue : List Nat
  activeNode : Option Nat
  activeQuery : Option MetadataRequest
  generation : Nat
  nodeGeneration : Nat → Nat
  activeGeneration : Nat
  rowCap : Nat
  columnsPane : ColumnsPane
  applied : List (Nat × Bool)

namespace Node

def child (node : Node) (id : Nat) (kind : NodeKind) : Node :=
  { id := id, parents := node.id :: node.parents, kind := kind }

def rowChild (node : Node) (id : Nat) (values : List String) : Node :=
  match node.kind with
  | .connection => { node.child id .schema with name := values.getD 0 "", schema := values.getD 0 "" }
  | .group =>
    { node.child id .object with
      name := values.getD 0 ""
      schema := node.schema
      objectName := values.getD 0 ""
      objectKind := node.objectKind
      isTableLike := node.objectKind == some .tables || node.objectKind == some .views
      secondary := if (values.getD 1 "").toUpper == "VALID" then "" else values.getD 1 "" }
  | .columnsNode =>
    { node.child id .column with
      columnPosition := values.getD 0 ""
      name := values.getD 1 ""
      columnType := values.getD 2 ""
      columnNullable := values.getD 3 ""
      secondary := values.getD 2 "" }
  | _ => { node.child id .object with name := values.getD 0 "" }

def groupChild (node : Node) (id : Nat) (group : ObjectKind × String) : Node :=
  { node.child id .group with name := group.2, objectKind := some group.1, schema := node.schema }

def columnsChild (node : Node) (id : Nat) : Node :=
  { node.child id .columnsNode with name := "Columns", schema := node.schema, objectName := node.objectName }

def fetches (node : Node) : Bool := node.kind == .connection || node.kind == .group || node.kind == .columnsNode

def request (node : Node) (rowCap : Nat) : MetadataRequest where
  target :=
    match node.kind with
    | .connection => .schemas
    | .group => .objectsOfKind node.objectKind
    | _ => .columnsOf
  schema := node.schema
  table := node.objectName
  nameFilter := if node.filterText == "" || node.kind == .columnsNode then none else some node.filterText
  limit := max 1 rowCap

def failed (kind : Option ErrorKind) (node : Node) : Node :=
  { node with loading := false, errorText := some (describeError kind), childrenLoaded := false }

def waiting (node : Node) : Node := { node with loading := true, errorText := none }
def idle (node : Node) : Node := { node with loading := false }

def refreshed (node : Node) : Node :=
  { node with childrenLoaded := false, errorText := none, truncated := false, shownCount := none }

def filled (truncated : Bool) (shown : Nat) (node : Node) : Node :=
  { node with
    loading := false, childrenLoaded := true, errorText := none, truncated := truncated, shownCount := some shown }

def populated (node : Node) : Node := { node with childrenLoaded := true }
def filtered (text : String) (node : Node) : Node := { node with filterText := text }

end Node

namespace Browser

def find (id : Nat) (b : Browser) : Option Node := b.nodes.find? fun node => node.id == id
def has (id : Nat) (b : Browser) : Bool := b.nodes.any fun node => node.id == id
def children (id : Nat) (b : Browser) : List Node := b.nodes.filter fun node => node.parents.head? == some id

def update (id : Nat) (f : Node → Node) (b : Browser) : Browser :=
  { b with nodes := b.nodes.map fun node => if node.id = id then f node else node }

/-- `beginChildReset`: the children go, and with them everything under them. -/
def clearChildren (id : Nat) (b : Browser) : Browser :=
  { b with nodes := b.nodes.filter fun node => !node.parents.contains id }

def adopt (children : List Node) (b : Browser) : Browser :=
  { b with nodes := b.nodes ++ children, nextNode := b.nextNode + children.length }

def touch (id : Nat) (b : Browser) : Browser := { b with applied := b.applied ++ [(id,b.has id)] }

def updateColumnsPaneFrom (id : Nat) (b : Browser) : Browser :=
  { b with columnsPane := { b.columnsPane with
    rows := (b.children id).map fun row => ⟨row.columnPosition,row.name,row.columnType,row.columnNullable⟩
    loading := false
    error := ((b.find id).bind Node.errorText).getD "" } }

def applyFetchError (id : Nat) (kind : Option ErrorKind) (b : Browser) : Browser :=
  { (b.touch id).update id (Node.failed kind) with
    columnsPane :=
      if b.columnsPane.node = some id then { b.columnsPane with loading := false, error := describeError kind }
      else b.columnsPane }

def rowChildren (node : Node) (rows : List (List String)) (b : Browser) : List Node :=
  rows.zipIdx.map fun row => node.rowChild (b.nextNode + row.2) row.1

def fill (node : Node) (rows : List (List String)) (truncated : Bool) (b : Browser) : Browser :=
  ((b.clearChildren node.id).adopt (b.rowChildren node rows)).update node.id (Node.filled truncated rows.length)

def applyRows (id : Nat) (rows : List (List String)) (truncated : Bool) (b : Browser) : Browser :=
  match b.find id with
  | none => b.touch id
  | some node =>
    if b.columnsPane.node = some id then ((b.touch id).fill node rows truncated).updateColumnsPaneFrom id
    else (b.touch id).fill node rows truncated

def released (b : Browser) : Browser := { b with activeNode := none, activeQuery := none }

/-- Every queued node fails with the session's error, unless it is stale. -/
def failQueued (kind : Option ErrorKind) (b : Browser) : Browser :=
  b.pendingQueue.foldl (fun b id => if b.nodeGeneration id = b.generation then b.applyFetchError id kind else b)
    { b with pendingQueue := [] }

/-- The kind of the session's error, as the prepared query sees it. A session that is gone has none
to read. -/
def correctedKind (o : Outcome) (b : Browser) : Option ErrorKind :=
  match b.activeQuery,b.session.bind Session.error with
  | some query,some kind => some (o.reclassify query kind)
  | _,kind => kind

/-- The active fetch has failed. A reply that its node has moved past is dropped. -/
def failActive (o : Outcome) (id : Nat) (b : Browser) : Browser :=
  if b.nodeGeneration id = b.activeGeneration then b.released.applyFetchError id (b.correctedKind o) else b.released

def begun (id : Nat) (rest : List Nat) (b : Browser) : Browser :=
  { b with pendingQueue := rest, activeNode := some id, activeGeneration := b.generation }

def requestFor (id : Nat) (b : Browser) : MetadataRequest :=
  match b.find id with
  | some node => node.request b.rowCap
  | none => ⟨.columnsOf,"","",none,max 1 b.rowCap⟩

def submitted (request : MetadataRequest) (session : Session) (b : Browser) : Browser :=
  { b with
    activeQuery := some request
    session := some { session with
      state := .usable, outstanding := session.outstanding ++ [.executes], error := none } }

/-- `execute` has refused a statement. It says so by the signal `failed` before it returns. -/
def refused (request : MetadataRequest) (session : Session) (kind : ErrorKind) (b : Browser) : Browser :=
  { b with
    activeQuery := some request
    session := some { session with state := .usable, error := some kind } }

/-- The error of a query that is not prepared, or not submitted as the session has no id. -/
def unsent (o : Outcome) (request : MetadataRequest) (session : Session) : Option ErrorKind :=
  if o.prepares request then session.error else some .driverInternal

/-- `startNextFetchIfIdle`, with a bound on how many nodes it takes from the queue. A refused
statement runs the slot for `failed`, which starts the next fetch, before the call that was
refused goes on and does the same once more; a session without an id refuses without a signal. -/
def startNextFetch (o : Outcome) : Nat → Browser → Browser
  | 0,b => b
  | fuel + 1,b =>
    match b.activeNode,b.pendingQueue,b.session with
    | none,id :: rest,some session =>
      if b.sessionOpenFailed = true ∨ session.state = .closed then b.failQueued session.error
      else if b.sessionReady = false then b
      else if b.nodeGeneration id ≠ b.generation then startNextFetch o fuel { b with pendingQueue := rest }
      else if o.prepares (b.requestFor id) = false ∨ session.opened = false then
        startNextFetch o fuel ((b.begun id rest).released.applyFetchError id (unsent o (b.requestFor id) session))
      else
        match o.executes id with
        | none => (b.begun id rest).submitted (b.requestFor id) session
        | some kind =>
          let signalled := startNextFetch o fuel
            (((b.begun id rest).refused (b.requestFor id) session kind).failActive o id)
          startNextFetch o fuel (signalled.released.applyFetchError id (signalled.session.bind Session.error))
    | _,_,_ => b

def startNextFetchIfIdle (o : Outcome) (b : Browser) : Browser := startNextFetch o b.pendingQueue.length b

def letGo (session : Session) (b : Browser) : Browser :=
  { b with session := none, late := b.late ++ session.outstanding }

def performClose (o : Outcome) (b : Browser) : Browser :=
  match b.session with
  | none => b
  | some session =>
    if session.opened = false ∨ session.state = .closed ∨ session.state = .closing then
      { b.letGo session with closePending := false }
    else
      { b with
        closePending := false
        sessionClosing := true
        session := some (if o.closes then
          { session with state := .closing, outstanding := session.outstanding ++ [.closes] } else session) }

/-- Every queued or active fetch is dropped, and the queued nodes are no longer marked as loading. -/
def dropFetches (b : Browser) : Browser :=
  b.pendingQueue.foldl (fun b id => b.update id Node.idle)
    { b.released with generation := b.generation + 1, pendingQueue := [] }

def closeConnection (o : Outcome) (b : Browser) : Browser :=
  match b.session with
  | none => b
  | some session =>
    if session.opened = false ∨ session.state = .closed ∨ session.state = .closing then
      b.dropFetches.letGo session
    else if b.sessionReady = false ∧ b.sessionOpenFailed = false then { b.dropFetches with closePending := true }
    else b.dropFetches.performClose o

def onMetadataSessionOpened (o : Outcome) (b : Browser) : Browser :=
  if b.closePending then { b with sessionReady := true }.performClose o
  else { b with sessionReady := true }.startNextFetchIfIdle o

def onMetadataSessionClosed (b : Browser) : Browser :=
  match b.session with
  | none => { b with sessionClosing := false }
  | some session => { b.letGo session with sessionClosing := false }

def onMetadataSessionFailed (o : Outcome) (b : Browser) : Browser :=
  match b.activeNode with
  | none =>
    if b.closePending then { b with sessionOpenFailed := true }.performClose o
    else { b with sessionOpenFailed := true }.startNextFetchIfIdle o
  | some id => (b.failActive o id).startNextFetchIfIdle o

/-- Rows of a list that is capped may be one more than the cap, which says that there are more. -/
def isTruncated (id : Nat) (rows : List (List String)) (b : Browser) : Bool :=
  (b.find id).any (fun node => node.kind == .connection || node.kind == .group) && b.rowCap < rows.length

def completeActive (id : Nat) (rows : List (List String)) (b : Browser) : Browser :=
  if b.nodeGeneration id = b.activeGeneration then
    if b.isTruncated id rows then b.released.applyRows id rows.dropLast true else b.released.applyRows id rows false
  else b.released

def onMetadataResultComplete (o : Outcome) (rows : List (List String)) (b : Browser) : Browser :=
  match b.activeNode with
  | none => b
  | some id => (b.completeActive id rows).startNextFetchIfIdle o

def ensureSessionOpen (o : Outcome) (b : Browser) : Browser :=
  match b.session with
  | some _ => b
  | none =>
    match o.opens with
    | none => { b with
        session := some ⟨true,.opening,[.opens],none⟩, sessionOpenFailed := false, sessionReady := false }
    | some kind => onMetadataSessionFailed o { b with
        session := some ⟨false,.usable,[],some kind⟩, sessionOpenFailed := false, sessionReady := false }

def enqueue (id : Nat) (b : Browser) : Browser :=
  { b.update id Node.waiting with
    nodeGeneration := Function.update b.nodeGeneration id b.generation
    pendingQueue := if id ∈ b.pendingQueue then b.pendingQueue else b.pendingQueue ++ [id] }

def queueFetch (o : Outcome) (id : Nat) (b : Browser) : Browser :=
  match b.session with
  | none => b.applyFetchError id (some .configuration)
  | some _ => (b.enqueue id).startNextFetchIfIdle o

def populateStaticGroups (node : Node) (b : Browser) : Browser :=
  if (b.children node.id).isEmpty then
    (b.adopt (groups.zipIdx.map fun group => node.groupChild (b.nextNode + group.2) group.1)).update node.id
      Node.populated
  else b.update node.id Node.populated

def populateStaticColumnsNode (node : Node) (b : Browser) : Browser :=
  if (b.children node.id).isEmpty then (b.adopt [node.columnsChild b.nextNode]).update node.id Node.populated
  else b.update node.id Node.populated

/-- What a forced expand does first: the children go, and every fetch that was asked for before is
of an older generation. -/
def refresh (id : Nat) (b : Browser) : Browser :=
  { (b.clearChildren id).update id Node.refreshed with generation := b.generation + 1 }

/-- The second half of `expand`. -/
def load (o : Outcome) (node : Node) (b : Browser) : Browser :=
  match node.kind with
  | .connection | .group | .columnsNode => (b.ensureSessionOpen o).queueFetch o node.id
  | .schema => b.populateStaticGroups node
  | .object => if node.isTableLike then b.populateStaticColumnsNode node else b
  | .column => b

def expand (o : Outcome) (id : Nat) (force : Bool) (b : Browser) : Browser :=
  match b.find id with
  | none => b
  | some node =>
    if node.kind = .column then b
    else if force then (b.refresh id).load o node
    else if node.loading || node.childrenLoaded then b
    else b.load o node

def setFilter (o : Outcome) (id : Nat) (text : String) (b : Browser) : Browser :=
  match b.find id with
  | none => b
  | some node =>
    if node.kind ≠ .connection ∧ node.kind ≠ .group then b
    else if node.filterText = text then b
    else (b.update id (Node.filtered text)).expand o id true

def showPane (columns : Node) (title : String) (b : Browser) : Browser :=
  { b with columnsPane := { b.columnsPane with node := some columns.id, title := title } }

def awaitPane (b : Browser) : Browser :=
  { b with columnsPane := { b.columnsPane with loading := true, rows := [], error := "" } }

def paneTitle (columns : Node) (b : Browser) : String :=
  match columns.parents.head?.bind fun id => b.find id with
  | some table => table.schema ++ "." ++ table.objectName
  | none => ""

def showColumns (o : Outcome) (columns : Node) (b : Browser) : Browser :=
  if columns.childrenLoaded then (b.showPane columns (b.paneTitle columns)).updateColumnsPaneFrom columns.id
  else ((b.showPane columns (b.paneTitle columns)).awaitPane).expand o columns.id false

def activate (o : Outcome) (id : Nat) (b : Browser) : Browser :=
  match b.find id with
  | none => b
  | some node =>
    if node.kind = .columnsNode then b.showColumns o node
    else if node.kind = .object ∧ node.isTableLike = true then
      let b := if node.childrenLoaded then b else b.populateStaticColumnsNode node
      match (b.children id).head? with
      | some columns => b.showColumns o columns
      | none => b
    else b

end Browser

inductive Call where
  | expand (id : Nat) (force : Bool)
  | setFilter (id : Nat) (text : String)
  | activate (id : Nat)
  | closeConnection
  deriving DecidableEq, Repr

def Call.perform (o : Outcome) (b : Browser) : Call → Browser
  | .expand id force => b.expand o id force
  | .setFilter id text => b.setFilter o id text
  | .activate id => b.activate o id
  | .closeConnection => b.closeConnection o

inductive Reply where
  | opened
  | openFailed (kind : ErrorKind)
  | executeFailed (kind : ErrorKind)
  | resultComplete (rows : List (List String))
  | sessionClosed (stillOpen : Bool)
  deriving DecidableEq, Repr

def Reply.request : Reply → Request
  | .opened | .openFailed _ => .opens
  | .executeFailed _ | .resultComplete _ => .executes
  | .sessionClosed _ => .closes

def Session.answered (reply : Reply) (session : Session) : Session :=
  { session with
    outstanding := session.outstanding.erase reply.request
    state :=
      match reply with
      | .sessionClosed false => .closed
      | _ => .usable
    error :=
      match reply with
      | .openFailed kind | .executeFailed kind => some kind
      | _ => session.error }

def Reply.signal (o : Outcome) (b : Browser) : Reply → Browser
  | .opened => b.onMetadataSessionOpened o
  | .openFailed _ | .executeFailed _ => b.onMetadataSessionFailed o
  | .resultComplete rows => b.onMetadataResultComplete o rows
  | .sessionClosed _ => b.onMetadataSessionClosed

def Reply.deliver (o : Outcome) (b : Browser) (session : Session) (reply : Reply) : Browser :=
  reply.signal o { b with session := some (session.answered reply) }

inductive Move where
  | call (call : Call)
  | reply (reply : Reply)
  | late (reply : Reply)
  deriving DecidableEq, Repr

/-- Any call at any time, and the replies to outstanding requests in any order. The slots do not ask
which session signals: a late reply is taken for one of the session that there is now. -/
inductive Step (o : Outcome) (b : Browser) : Move → Browser → Prop where
  | call (call : Call) : Step o b (.call call) (call.perform o b)
  | reply {session : Session} {reply : Reply} (current : b.session = some session)
      (outstanding : reply.request ∈ session.outstanding) : Step o b (.reply reply) (reply.deliver o b session)
  | late {reply : Reply} (unheard : reply.request ∈ b.late) :
      Step o b (.late reply) (reply.signal o { b with late := b.late.erase reply.request })

/-- The tree of a bridge that has just been set. -/
def Browser.start (rowCap : Nat) : Browser where
  nodes := [{ id := 0, parents := [], kind := .connection, name := "Connection" }]
  nextNode := 1
  session := none
  late := []
  sessionClosing := false
  sessionOpenFailed := false
  sessionReady := false
  closePending := false
  pendingQueue := []
  activeNode := none
  activeQuery := none
  generation := 0
  nodeGeneration _ := 0
  activeGeneration := 0
  rowCap := max 1 rowCap
  columnsPane := ⟨none,"",[],false,""⟩
  applied := []

end Reldex.ObjectBrowser
