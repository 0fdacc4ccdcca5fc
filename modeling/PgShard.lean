import PgShard.TwoPhase.Answer
import PgShard.Postgres.Insert
import PgShard.Planner.Immutable
import PgShard.Ddl.ForeignKey
import PgShard.Ddl.ViewHistory
import PgShard.Copy.Attribute
import PgShard.Scatter.NumericDiv
import PgShard.Scatter.Window
import PgShard.Sequence.Unique
import PgShard.Pooler.Stranded
import PgShard.Placer.Converge
import PgShard.Placer.Skips
import PgShard.Vstream.Acked
import PgShard.Vstream.Ackers
import PgShard.Migration.Resume
import PgShard.Migration.Attempts
import PgShard.Migration.Conclusions
import PgShard.Migration.OwnDrops
import PgShard.Operator.Failover
import PgShard.TwoPhase.Report
import PgShard.Pgoutput.Faithful
import PgShard.Queue.Exclusion
import PgShard.Agent.Rejoin
import PgShard.Agent.Epoch
import PgShard.Relay.Flush
import PgShard.Relay.SqlPrepare
import PgShard.Controller.PauseSweep
import PgShard.Controller.RolesGeneration
import PgShard.Key.Uuid
import PgShard.Pooler.Handouts
