import Reservoir.Membrane.Basic
import Reservoir.Membrane.Evolve
import Reservoir.Membrane.Sort
import Reservoir.Membrane.System
import Reservoir.Membrane.Frame
import Reservoir.Membrane.Shape
import Reservoir.Membrane.Conservation
import Reservoir.Membrane.Reach
import Reservoir.Esn.Basic
import Reservoir.Esn.Update
import Reservoir.Esn.Train
import Reservoir.Esn.Run
import Reservoir.Esn.InputWidth
import Reservoir.Esn.Bound
import Reservoir.Esn.Output
import Reservoir.Esn.Spectral
import Reservoir.Filter.Signals
import Reservoir.Affective.Agent
import Reservoir.Affective.Spam
import Reservoir.Filter.Classify
import Reservoir.Filter.Combine
import Reservoir.Affective.Run
import Reservoir.Filter.Runs
