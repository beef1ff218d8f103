import SignalTree.Text.Joining

/-!
Written characters: a base character with all that attaches to it. Letters
without case never bound a word, so joins between them (syllable blocks,
conjuncts, flags) are left alone here.
-/
namespace SignalTree.Text

abbrev Cluster := List Char

def zeroWidthJoiner : Char := '\u200D'

/-- Whether a picture and its marks come last in the reversed text. -/
def endsInPicture (reversed : List Char) : Bool :=
  (reversed.dropWhile attaches).head?.any pictureRuns.contains

def continues : List Char → Char → Bool
  | [], _ => false
  | last :: before, c =>
    if last = '\r' then c == '\n'
    else if separatingRuns.contains last || separatingRuns.contains c then false
    else
      attaches c || c == zeroWidthJoiner || spacingRuns.contains c ||
        prependingRuns.contains last ||
        (last == zeroWidthJoiner && pictureRuns.contains c && endsInPicture before)

/-- `current` is the cluster under way, last character first. -/
def clustersFrom (current : List Char) : List Char → List Cluster
  | [] => if current.isEmpty then [] else [current.reverse]
  | c :: rest =>
    if continues current c then clustersFrom (c :: current) rest
    else if current.isEmpty then clustersFrom [c] rest
    else current.reverse :: clustersFrom [c] rest

def clusters (cs : List Char) : List Cluster := clustersFrom [] cs

theorem flatten_clustersFrom (current cs : List Char) :
    (clustersFrom current cs).flatten = current.reverse ++ cs := by
  induction cs generalizing current with
  | nil => cases current <;> simp [clustersFrom]
  | cons c cs ih =>
    by_cases h : continues current c
    · simp [clustersFrom, h, ih]
    · cases current <;> simp [clustersFrom, h, ih]

@[simp] theorem flatten_clusters (cs : List Char) : (clusters cs).flatten = cs := by
  simp [clusters, flatten_clustersFrom]

end SignalTree.Text
