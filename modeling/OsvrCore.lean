import OsvrCore.Math.CyclicWindow
import OsvrCore.Math.Transition
import OsvrCore.Math.WaitGraph
import OsvrCore.Common.IPCRingBuffer
import OsvrCore.Connection.AsyncAccessControl
import OsvrCore.Connection.AccessExclusive
import OsvrCore.Connection.AccessRequesters
import OsvrCore.Server.ServerLocks
import OsvrCore.Math.NamedForest
import OsvrCore.Math.Program
import OsvrCore.Common.JsonValue
import OsvrCore.Common.PathElementTypes
import OsvrCore.Common.PathParseAndRetrieve
import OsvrCore.Common.PathTreeSerialization
import OsvrCore.Math.PartialOrbit
import OsvrCore.Common.ParseAlias
import OsvrCore.Common.PathTree
import OsvrCore.Common.AliasProcessor
import OsvrCore.Common.AliasEntries
import OsvrCore.Common.AliasTermination
import OsvrCore.Common.AliasChanges
import OsvrCore.Common.NormalizeDeviceDescriptor
import OsvrCore.Common.ProcessDeviceDescriptor
import OsvrCore.Common.DescriptorChanges
import OsvrCore.Server.ServerTree
import OsvrCore.Common.ResolveTreeNode
import OsvrCore.Server.ServerMessages
import OsvrCore.Server.TreeDirty
import OsvrCore.Client.BadPaths
import OsvrCore.Client.Reentrancy
import OsvrCore.Client.ManagerAlone
import OsvrCore.Common.Buffer
import OsvrCore.Common.DescriptorParts
import OsvrCore.Common.ImagingComponent
import OsvrCore.Common.RegisteredStringMap
import OsvrCore.Common.RingBufferLocks
import OsvrCore.Connection.PermanentDenial
import OsvrCore.Server.DescriptorAgreement
import OsvrCore.Connection.VrpnTrackerServer
import OsvrCore.VbTracker.BeaconBasedPoseEstimator
import OsvrCore.Client.EyeTrackerRemoteFactory
import OsvrCore.Common.AliasPriorities
import OsvrCore.Common.PathTreeNodes
import OsvrCore.Common.AddDevice
import OsvrCore.Common.AliasOptions
import OsvrCore.Client.InterfaceOwnership
import OsvrCore.Math.ProgramView
import OsvrCore.Client.TreeReplacement
import OsvrCore.Common.JsonOrder
import OsvrCore.Common.NormalizedInterfaces
import OsvrCore.Common.NormalizedDescriptors
import OsvrCore.Common.GeneralizedTransform
import OsvrCore.Common.ResolutionStability
import OsvrCore.Common.AliasRoundTrip
import OsvrCore.Common.SpaceRequired
import OsvrCore.Common.RingBufferOperations
import OsvrCore.Common.DeviceSurvival
import OsvrCore.Common.ReaderBounds
import OsvrCore.Common.SharedMemoryNames
import OsvrCore.Common.RouteContainer
import OsvrCore.Util.TimeArithmetic
import OsvrCore.Common.InterfaceStateMap
import OsvrCore.Client.RemoteHandlerInternals
import OsvrCore.Client.ChannelSelection
import OsvrCore.Util.CSV
import OsvrCore.VbTracker.LedAssociation
import OsvrCore.Math.CyclicWord
import OsvrCore.VbTracker.HDKLedIdentifier
import OsvrCore.Math.DecayingCounter
import OsvrCore.VbTracker.LedNovelty
import OsvrCore.VbTracker.BeaconSet
import OsvrCore.VbTracker.PnPRansac
import OsvrCore.Math.TwoSided
import OsvrCore.Math.AffineMatrix
import OsvrCore.Common.Transform
import OsvrCore.Common.JSONTransformVisitor
import OsvrCore.Common.TransformLinear
import OsvrCore.Client.FailedRequests
import OsvrCore.Math.ProjectiveMap
import OsvrCore.Util.MatrixConventions
import OsvrCore.Util.ProjectionMatrix
import OsvrCore.Client.ViewerEye
import OsvrCore.Client.DisplayDescriptor
import OsvrCore.Client.DisplayConfig
import OsvrCore.PluginHost.RegistrationContext
import OsvrCore.Server.ConfigureServer
import OsvrCore.Server.DriverEntries
import OsvrCore.Common.PriorityOrder
import OsvrCore.Math.Broadcast
import OsvrCore.Server.TreeBroadcast
import OsvrCore.Client.MirroredTree
import OsvrCore.System.TreeReplication
import OsvrCore.Common.RingBufferContents
import OsvrCore.Math.Feed
import OsvrCore.Common.ImageStream
import OsvrCore.Math.Covariance
import OsvrCore.Kalman.FlexibleKalmanFilter
import OsvrCore.Kalman.PoseProcess
import OsvrCore.VbTracker.KalmanCorrections
import OsvrCore.VbTracker.KalmanRuns
import OsvrCore.Math.Smoothing
import OsvrCore.Math.Demux
import OsvrCore.Util.EigenQuaternion
import OsvrCore.Util.EigenInterop
import OsvrCore.Util.EigenFilters
import OsvrCore.Filters.OneEuroFilterDevice
import OsvrCore.Kalman.ExternalQuaternion
import OsvrCore.VbTracker.KalmanOrientation
import OsvrCore.VbTracker.ImagePointJacobian
