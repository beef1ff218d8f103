import SignalTree.Text.Cased
import SignalTree.Text.Cluster

/-!
The words of a name. Underscores, hyphens and spaces part words, and so does a
change between upper case letters, lower case letters and digits.
-/
namespace SignalTree.Text

inductive ClusterKind where
  | upper
  | lower
  | digit
  | separator
  | other
deriving DecidableEq

/-- A cluster is upper case when upper-casing leaves it alone and lower-casing
does not, so one letter of the other case or a title case letter makes it
neither. -/
def clusterKind (cluster : Cluster) : ClusterKind :=
  if cluster = ['_'] ∨ cluster = ['-'] ∨ cluster = [' '] then .separator
  else if cluster.all Char.isDigit then .digit
  else if cluster.any raising.contains then
    if cluster.any lowering.contains then .other else .lower
  else if cluster.any lowering.contains then .upper
  else .other

/-- Whether a word starts at a cluster, by the kinds of the cluster before it,
its own and of the cluster after it. The last upper case letter before a lower
case one starts a word, so `ABSActive` reads as `ABS` and `Active`. -/
def startsWord (before now : ClusterKind) (next : Option ClusterKind) : Bool :=
  match before, now with
  | .lower, .upper | .digit, .upper | .upper, .digit | .digit, .lower | .lower, .digit => true
  | .upper, .upper => next == some .lower
  | _, _ => false

/-- `word` is the word under way, last cluster first, and `before` the kind of
the cluster before the rest. Empty words are kept. -/
def wordsFrom (before : ClusterKind) (word : List Cluster) : List Cluster → List (List Char)
  | [] => [word.reverse.flatten]
  | cluster :: rest =>
    let now := clusterKind cluster
    if now = .separator then word.reverse.flatten :: wordsFrom now [] rest
    else if startsWord before now (rest.head?.map clusterKind) then
      word.reverse.flatten :: wordsFrom now [cluster] rest
    else wordsFrom now (cluster :: word) rest

def words (cs : List Char) : List (List Char) :=
  (wordsFrom .separator [] (clusters cs)).filter (!·.isEmpty)

def snakeCase (cs : List Char) : List Char :=
  (((words cs).map (·.flatMap lowerChar)).intersperse ['_']).flatten

end SignalTree.Text
