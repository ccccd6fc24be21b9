import EventSourcing.Bench.ConflictErrors
import EventSourcing.Bench.Contention
import EventSourcing.Bench.IndexBatches
import EventSourcing.Bench.Pacing
import EventSourcing.BenchHistory
import EventSourcing.CatchUp
import EventSourcing.CompetingConsumers.Acquire
import EventSourcing.CompetingConsumers.Lease
import EventSourcing.Fold.Recent
import EventSourcing.HotTail.RingBuffers
import EventSourcing.HotTail.Versions
import EventSourcing.KurrentDB.Benchmark
import EventSourcing.KurrentDB.HotColdView
import EventSourcing.KurrentDB.HotStreams
import EventSourcing.KurrentDB.LiveLag
import EventSourcing.KurrentDB.Projector
import EventSourcing.KurrentDB.Reads
import EventSourcing.KurrentDB.RehydrateDemo
import EventSourcing.KurrentDB.SearchIndexer
import EventSourcing.KurrentDB.SnapshotCadence
import EventSourcing.LostUpdate
import EventSourcing.Mongo.Bootstrap
import EventSourcing.Mongo.Collection
import EventSourcing.Mongo.Relay
import EventSourcing.Mongo.RelayOrder
import EventSourcing.MongoClient.Appends
import EventSourcing.MongoClient.HotStream
import EventSourcing.MongoClient.Projection
import EventSourcing.OrderStreams
import EventSourcing.Outbox
import EventSourcing.Postgres.AdvisoryLease
import EventSourcing.Postgres.Bootstrap
import EventSourcing.Postgres.Checkpoint
import EventSourcing.Postgres.ConsumerRuns
import EventSourcing.Postgres.RelayDrain
import EventSourcing.Postgres.Subscription
import EventSourcing.PostgresClient.BatchPaths
import EventSourcing.PostgresClient.HotStreams
import EventSourcing.PostgresClient.Poll
import EventSourcing.PostgresClient.Projection
import EventSourcing.PostgresClient.SearchBench
import EventSourcing.PostgresClient.SeqColumn
import EventSourcing.Redelivery
import EventSourcing.Rehydration
import EventSourcing.RelayShutdown
import EventSourcing.SearchQueries
import EventSourcing.StoresAgree
import EventSourcing.Upcasting
import EventSourcing.WriteBenchmarks
