import AptosBft.Lib.BTreeMap
import AptosBft.Traits
import Mathlib.Data.List.TakeDrop

/-! `dag/store.rs`: certified nodes by round and author. A round is a vector with one
place per author index. The index is made from the author list as it is given, so an
author who is listed twice has the later index and the vector of a new round, which
has one place per distinct author, can be too short for it. The configuration is
stored and never read. `{:?}` of a round or an author is its `ToString`. -/

namespace AptosBft
open Rust

/-- `node().metadata().node_id()` of a certified node. -/
class CertifiedNode (M : Type) (R A : outParam Type) where
  round : M → R
  author : M → A

inductive StoredNodeStatus (M : Type) where
  | unordered (node : M) (aggregatedVotingPower : Nat)
  | ordered (node : M)
  deriving DecidableEq, Repr

namespace StoredNodeStatus
variable {M : Type}

def asNode : StoredNodeStatus M → M
  | .unordered node _ => node
  | .ordered node => node

def isOrdered : StoredNodeStatus M → Bool
  | .unordered .. => false
  | .ordered _ => true

def markAsOrdered (status : StoredNodeStatus M) : Except Error Unit × StoredNodeStatus M :=
  match status with
  | .unordered node _ => (.ok (), .ordered node)
  | .ordered _ => (.error ⟨"Node is already ordered"⟩, status)

end StoredNodeStatus

structure InMemDag (R A M : Type) [LinearOrder R] where
  nodesByRound : BTreeMap R (List (Option (StoredNodeStatus M)))
  authorToIndex : HashMap A Nat

namespace InMemDag
variable {R A M : Type} [LinearOrder R] [DecidableEq A]

def new (authors : List A) : InMemDag R A M where
  nodesByRound := .empty
  authorToIndex := authors.zipIdx.foldl (fun index entry => index.insert entry.1 entry.2) ∅

def lowestRound [Inhabited R] (dag : InMemDag R A M) : R := dag.nodesByRound.keys.head?.getD default

def highestRound [Inhabited R] (dag : InMemDag R A M) : R := dag.nodesByRound.keys.getLast?.getD default

def authors (order : Order A) (dag : InMemDag R A M) : List A := order.arrange dag.authorToIndex.keys

def numAuthors (dag : InMemDag R A M) : Nat := dag.authorToIndex.len

/-- `takeD` is `Vec::resize`. The vector of the round stays as it was made, also when
the place in it is taken. -/
def addNode [CertifiedNode M R A] [ToString R] [ToString A] (dag : InMemDag R A M) (node : M) :
    Except Error Unit × InMemDag R A M :=
  let round := CertifiedNode.round node
  let author := CertifiedNode.author node
  match dag.authorToIndex.lookup author with
  | none => (.error ⟨s!"Unknown author: {author}"⟩, dag)
  | some authorIndex =>
    let roundNodes := (dag.nodesByRound.get round).getD (.replicate dag.authorToIndex.len none)
    let roundNodes := if roundNodes.length ≤ authorIndex then roundNodes.takeD (authorIndex + 1) none else roundNodes
    match roundNodes[authorIndex]? with
    | some (some _) =>
      (.error ⟨s!"Node already exists for round {round}, author {author}"⟩,
        { dag with nodesByRound := dag.nodesByRound.insert round roundNodes })
    | _ =>
      (.ok (), { dag with
        nodesByRound := dag.nodesByRound.insert round (roundNodes.set authorIndex (some (.unordered node 0))) })

def getNodeStatus (dag : InMemDag R A M) (round : R) (author : A) : Option (StoredNodeStatus M) := do
  let authorIndex ← dag.authorToIndex.lookup author
  let roundNodes ← dag.nodesByRound.get round
  let status ← roundNodes[authorIndex]?
  status

def getNode (dag : InMemDag R A M) (round : R) (author : A) : Option M := do
  let authorIndex ← dag.authorToIndex.lookup author
  let roundNodes ← dag.nodesByRound.get round
  let status ← roundNodes[authorIndex]?
  status.map StoredNodeStatus.asNode

def «exists» (dag : InMemDag R A M) (round : R) (author : A) : Bool := (dag.getNode round author).isSome

def markOrdered [ToString R] [ToString A] (dag : InMemDag R A M) (round : R) (author : A) :
    Except Error Unit × InMemDag R A M :=
  match dag.authorToIndex.lookup author with
  | none => (.error ⟨s!"Unknown author: {author}"⟩, dag)
  | some authorIndex =>
    match dag.nodesByRound.get round with
    | none => (.error ⟨s!"Round {round} not found"⟩, dag)
    | some roundNodes =>
      match roundNodes[authorIndex]? with
      | none => (.error ⟨"Author index out of bounds"⟩, dag)
      | some none => (.error ⟨"Node not found"⟩, dag)
      | some (some status) =>
        let (result, status) := status.markAsOrdered
        (result, { dag with
          nodesByRound := dag.nodesByRound.insert round (roundNodes.set authorIndex (some status)) })

/-- The nodes of one vector, in the order of their places. -/
def nodesOf (roundNodes : List (Option (StoredNodeStatus M))) : List M :=
  roundNodes.filterMap fun status => status.map StoredNodeStatus.asNode

def getRound (dag : InMemDag R A M) (round : R) : List M := ((dag.nodesByRound.get round).map nodesOf).getD []

def allNodes (dag : InMemDag R A M) : List M := dag.nodesByRound.values.flatMap nodesOf

def len (dag : InMemDag R A M) : Nat := (dag.nodesByRound.values.map fun round => round.countP Option.isSome).sum

def isEmpty (dag : InMemDag R A M) : Bool := dag.len == 0

def pruneBelow (dag : InMemDag R A M) (minRound : R) : InMemDag R A M :=
  { dag with nodesByRound := dag.nodesByRound.splitOff minRound }

def clear (dag : InMemDag R A M) : InMemDag R A M := { dag with nodesByRound := .empty }

end InMemDag
end AptosBft
