import MotionRace.Geometry.Segment
import MotionRace.Trajectory

/-!
# Planning problems

Two kinds of query over joint space: reach a configuration, or reach any configuration whose end
effector lies in a region. The kinds are a closed set; planners say which ones they take.
-/

namespace MotionRace

open MotionRace.Geometry (Region)

/-- The kind of a problem. -/
inductive ProblemKind where
  | toConfiguration
  | toRegion
  deriving Repr, BEq, DecidableEq

namespace ProblemKind

/-- Every kind, in the order of their listing. -/
def all : List ProblemKind := [.toConfiguration, .toRegion]

/-- The written name of a kind. -/
def name : ProblemKind → String
  | .toConfiguration => "configuration_to_configuration"
  | .toRegion => "configuration_to_region"

/-- The kind of a written name. -/
def ofName? (name : String) : Option ProblemKind := all.find? (·.name == name)

end ProblemKind

/-- A motion planning query. -/
inductive Problem where
  /-- Go from `start` to `goal`. -/
  | toConfiguration (start goal : Configuration)
  /-- Go from `start` to where the end effector lies in `region`. -/
  | toRegion (start : Configuration) (region : Region Float)
  deriving Repr, BEq

namespace Problem

def kind : Problem → ProblemKind
  | .toConfiguration .. => .toConfiguration
  | .toRegion .. => .toRegion

def start : Problem → Configuration
  | .toConfiguration start _ => start
  | .toRegion start _ => start

/-- The number of joints that the start implies. -/
def dof (p : Problem) : Nat := p.start.length

end Problem

end MotionRace
