import KingPi.Theory.Packages
import KingPi.Theory.Caching
import KingPi.Theory.Guard
import KingPi.Theory.Zones
import KingPi.Theory.Sequence
import KingPi.Theory.Grammar
import KingPi.Theory.Normal
import KingPi.Theory.Agreement
import KingPi.Theory.Blame
import KingPi.Theory.Encoding
import KingPi.Theory.Atomic
import KingPi.Theory.Progress
import KingPi.Theory.Health
import KingPi.Theory.Refinement
import KingPi.Theory.Constraints
import KingPi.Theory.Shielding
import KingPi.Theory.Isolation
