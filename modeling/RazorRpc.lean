import RazorRpc.Lib.Bytes
import RazorRpc.Lib.BTreeMap
import RazorRpc.Lib.Prog
import RazorRpc.Lib.Lts
import RazorRpc.Lib.Cyclic
import RazorRpc.Lib.Text
import RazorRpc.Error
import RazorRpc.Task
import RazorRpc.Proto
import RazorRpc.RespFrame
import RazorRpc.TcpServer
import RazorRpc.ReqStream
import RazorRpc.Timer
import RazorRpc.Registry
import RazorRpc.TcpClient
import RazorRpc.RespStream
import RazorRpc.Stream
import RazorRpc.ConnProto
import RazorRpc.Answer
import RazorRpc.Conn
import RazorRpc.ConnInv
import RazorRpc.ExactlyOnce
import RazorRpc.WaitReg
import RazorRpc.Watch
import RazorRpc.PendingCount
import RazorRpc.Throttle
import RazorRpc.ConnPool
import RazorRpc.Cluster
import RazorRpc.Failover
import RazorRpc.Discovery
import RazorRpc.Api
import RazorRpc.FailoverCall
import RazorRpc.NextNode
import RazorRpc.Service
import RazorRpc.EndToEnd
import RazorRpc.Age
import RazorRpc.Linger
import RazorRpc.Buffer
import RazorRpc.RespBlob
import RazorRpc.Wire
import RazorRpc.StreamDrop
import RazorRpc.PoolFailure
import RazorRpc.ReqAction
import RazorRpc.Malformed
import RazorRpc.UserErr
import RazorRpc.TimeOut
import RazorRpc.RetryRound
import RazorRpc.ConnectedWorkers
import RazorRpc.RoundRobin
import RazorRpc.UpdateAddrs
import RazorRpc.Ledger
import RazorRpc.LastResp
import RazorRpc.ServerTaskEnum
import RazorRpc.Graceful
import RazorRpc.SvrConn
import RazorRpc.RpcServer
import RazorRpc.ReqOut
import RazorRpc.RespIn
import RazorRpc.Session
import RazorRpc.PoolTasks
import RazorRpc.ReqGrammar
import RazorRpc.ClientTaskEnum
import RazorRpc.Lib.Live
import RazorRpc.PoolLive
import RazorRpc.ApiSession
