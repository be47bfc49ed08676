import IreeRocket.Compiler.DecisionRoundTrip
import IreeRocket.Core.AdmissionSound
import IreeRocket.Core.ArithmeticSafe
import IreeRocket.Core.BankGrant
import IreeRocket.Core.DepthwiseSlots
import IreeRocket.Core.MultiplierLoops
import IreeRocket.Core.PadFolding
import IreeRocket.Core.WeightAccounting
import IreeRocket.Driver.BufferCustody
import IreeRocket.Driver.CacheHistory
import IreeRocket.Driver.CacheHonesty
import IreeRocket.Driver.ElementwiseDispatch
import IreeRocket.Driver.DispatchCalls
import IreeRocket.Driver.ElisionRuns
import IreeRocket.Driver.FanOutRuns
import IreeRocket.Driver.PoolingDispatch
import IreeRocket.Driver.Specialisation
import IreeRocket.Driver.StagedInputs
import IreeRocket.Driver.WorkerFailure
import IreeRocket.Hal.EmissionSafety
import IreeRocket.Hal.ExecutableFormat
import IreeRocket.Hal.FeatureRoundTrip
import IreeRocket.Hal.StagedOutput
import IreeRocket.Lib.Convolution
import IreeRocket.Lib.LinalgLaws
import IreeRocket.Lib.Runs
import IreeRocket.Lib.Segments
import IreeRocket.Plugin.ConvIntegerExpansion
import IreeRocket.Plugin.ConvInputs
import IreeRocket.Plugin.ConvTripwire
import IreeRocket.Plugin.PackedFilter
import IreeRocket.Plugin.PaddedConv
import IreeRocket.Plugin.DemotionUndone
import IreeRocket.Plugin.ServedSites
import IreeRocket.Plugin.UnbatchedCast
