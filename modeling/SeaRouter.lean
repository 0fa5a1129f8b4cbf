import SeaRouter.Lib.Run
import SeaRouter.Lib.Fuel
import SeaRouter.Lib.Simulation
import SeaRouter.Lib.Array
import SeaRouter.Lib.SortedArray
import SeaRouter.Lib.BinHeap
import SeaRouter.Lib.Walk
import SeaRouter.Lib.Search
import SeaRouter.Lib.Hierarchy
import SeaRouter.Utils.DistanceHeap
import SeaRouter.DijkstraGrid.Grid
import SeaRouter.Router.DijkstraHeap
import SeaRouter.Router.RoutingResult
import SeaRouter.Router.DijkstraRouter
import SeaRouter.Utils.IntArraySet
import SeaRouter.Utils.OrderedIntSet
import SeaRouter.HubLabelCreation.Edges
import SeaRouter.HubLabelCreation.DynamicGrid
import SeaRouter.HubLabelCreation.CHDijkstra
import SeaRouter.HubLabelCreation.WitnessSearch
import SeaRouter.HubLabelCreation.LabelCreator
import SeaRouter.HubLabelCreation.Contraction
import SeaRouter.HubLabelCreation.CalculateCH
import SeaRouter.HubLabelCreation.Levels
import SeaRouter.HubLabelCreation.Labels
import SeaRouter.HubLabelCreation.HLDijkstra
import SeaRouter.HubLabelCreation.NodeLabels
import SeaRouter.HubLabelCreation.CalcOrder
import SeaRouter.HubLabelCreation.CalcLabels
import SeaRouter.HubLabelCreation.HubLabels
import SeaRouter.Lib.Rows
import SeaRouter.Lib.Text
import SeaRouter.Lib.Collections
import SeaRouter.DijkstraGrid.FmiFile
import SeaRouter.DijkstraGrid.GridFile
import SeaRouter.DijkstraGrid.GridCreator
import SeaRouter.HubLabelCreation.DynamicGridFile
import SeaRouter.Utils.IntStack
import SeaRouter.HubLabelData.HubLEdges
import SeaRouter.HubLabelData.HubLNodes
import SeaRouter.Router.HubLRouter
import SeaRouter.Router.Unpacking
import SeaRouter.Router.Merge
import SeaRouter.Router.RoutePath
import SeaRouter.Router.LabelData
import SeaRouter.Router.CutData
import SeaRouter.Router.TempLabels
import SeaRouter.Router.FoldLabels
import SeaRouter.Router.Selection
import SeaRouter.Router.Pipeline
import SeaRouter.Router.LabelSums
import SeaRouter.Router.AddEdges
import SeaRouter.Router.Agreement
import SeaRouter.CoastlineGrid.CoastlineWays
import SeaRouter.CoastlineGrid.GridCell
import SeaRouter.CoastlineGrid.CenterPoint
import SeaRouter.CoastlineGrid.PointInWaterChecker
import SeaRouter.CoastlineGrid.Subdivision
import SeaRouter.CoastlineGrid.Constructor
import SeaRouter.HubLabelCreation.HandsOut
import SeaRouter.Router.Reuse
import SeaRouter.Lib.Thread
import SeaRouter.Router.LabelledRequests
import SeaRouter.Rest.RoutingController
import SeaRouter.Router.SideEdges
import SeaRouter.Router.HubLData
import SeaRouter.Router.Preprocessing
import SeaRouter.Router.LeastLabels
import SeaRouter.Rest.ConcurrentRequests
import SeaRouter.DijkstraGrid.CreatedEdges
import SeaRouter.Router.CreatedGrid
import SeaRouter.DijkstraGrid.NearestNode
import SeaRouter.Rest.Application
import SeaRouter.Rest.CreatedService
import SeaRouter.Router.Checkpoints
import SeaRouter.Utils.Distance
import SeaRouter.Utils.Intersection
import SeaRouter.Utils.LatitudeCrossing
import SeaRouter.CoastlineGrid.Parity
import SeaRouter.Router.DijkstraQueue
import SeaRouter.OsmImport.CoastlineImporter
import SeaRouter.Utils.IntArrayList
import SeaRouter.DijkstraGrid.SphereDistance
