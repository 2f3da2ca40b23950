import AmrFramework.Runs
import AmrFramework.OtaCoordinator
import AmrFramework.OtaCoordinatorSafety
import AmrFramework.OtaAgent
import AmrFramework.OtaAgentSafety
import AmrFramework.OtaVerdict
import AmrFramework.Separators
import AmrFramework.SignedManifest
import AmrFramework.OtaTrust
import AmrFramework.Base64
import AmrFramework.PackageSigner
import AmrFramework.DependencyOrder
import AmrFramework.HealthFeed
import AmrFramework.SupervisorPolicy
import AmrFramework.BringUpOrder
import AmrFramework.ChildBudget
import AmrFramework.SupervisorNode
import AmrFramework.BackoffCurve
import AmrFramework.SupervisorEffects
import AmrFramework.SupervisorSteps
import AmrFramework.SupervisorProcess
import AmrFramework.SupervisorDeps
import AmrFramework.ReadyChildren
import AmrFramework.HealthGate
import AmrFramework.HealthDelivery
import AmrFramework.SupervisorRecovery
import AmrFramework.CMath
import AmrFramework.TransformScan
import AmrFramework.ClusterDetector
import AmrFramework.DensityGraph
import AmrFramework.ClusterLabels
import AmrFramework.ClusterExpansion
import AmrFramework.JosephForm
import AmrFramework.KalmanFilter
import AmrFramework.KalmanCovariance
import AmrFramework.RunningBest
import AmrFramework.GreedyMatching
import AmrFramework.Tracker
import AmrFramework.TrackerIdentity
import AmrFramework.TrackerFilters
import AmrFramework.DepthObstacleDetector
import AmrFramework.LinkedRuns
import AmrFramework.DepthScan
import AmrFramework.PerceptionService
import AmrFramework.SensorAges
import AmrFramework.FusionNode
import AmrFramework.TrackedFusion
import AmrFramework.ScanBuffer
import AmrFramework.PurePursuit
import AmrFramework.CollisionGuard
import AmrFramework.VfhAvoidance
import AmrFramework.VelocitySmoother
import AmrFramework.TrackErrorMonitor
import AmrFramework.TrackDistance
import AmrFramework.MotorCtrlNode
import AmrFramework.GuardLastWord
import AmrFramework.MotorEnvelope
import AmrFramework.ScanFilter
import AmrFramework.Approach
import AmrFramework.SmootherLimits
import AmrFramework.TrackErrorStop
import AmrFramework.PassedWaypoints
import AmrFramework.PursuitCalls
import AmrFramework.Arrival
import AmrFramework.GapMemory
import AmrFramework.MaximalRuns
import AmrFramework.GapScan
import AmrFramework.SeamGap
import AmrFramework.GapMirror
import AmrFramework.GapHold
import AmrFramework.GoalIsolation
import AmrFramework.GuardContract
import AmrFramework.FieldOfView
import AmrFramework.HoldTimer
import AmrFramework.Ieee
import AmrFramework.IeeeGuard
import AmrFramework.CmdVelGuard
import AmrFramework.DiffDriveSystem
import AmrFramework.SensorRegistry
import AmrFramework.TaskScheduler
import AmrFramework.StartOrder
import AmrFramework.HealthMonitor
import AmrFramework.HealthReports
import AmrFramework.HealthChain
import AmrFramework.HealthSignals
import AmrFramework.RestartProtocol
import AmrFramework.RestartDeadline
import AmrFramework.RestartBudget
import AmrFramework.DecisionNode
import AmrFramework.GoalLock
import AmrFramework.DroppedGoals
import AmrFramework.BestFirst
import AmrFramework.OccupancyGrid
import AmrFramework.AStarPlanner
import AmrFramework.AStarPath
import AmrFramework.PathSmoother
import AmrFramework.CornerArc
import AmrFramework.RayLine
import AmrFramework.ScanToGrid
import AmrFramework.GridUpdater
import AmrFramework.GridEdges
import AmrFramework.RayExit
import AmrFramework.SimulatedScene
import AmrFramework.RayCast
import AmrFramework.SceneScan
import AmrFramework.SceneSimulator
import AmrFramework.GuardedLoop
import AmrFramework.DecisionGrid
import AmrFramework.SceneMap
import AmrFramework.PlannedArrival
import AmrFramework.DedupCache
import AmrFramework.DedupWindow
import AmrFramework.ByteFields
import AmrFramework.RpcHeader
import AmrFramework.PendingCalls
import AmrFramework.ReplyPairing
import AmrFramework.RpcExchange
import AmrFramework.BoundedFifo
import AmrFramework.RingBuffer
import AmrFramework.Utf8
import AmrFramework.JsonText
import AmrFramework.LogWorker
import AmrFramework.Logging
import AmrFramework.Tracing
import AmrFramework.Histogram
