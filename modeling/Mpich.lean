import Mpich.Attr.Maps
import Mpich.Ch3.Close.Handshake
import Mpich.Ch3.Fence.Agreement
import Mpich.Ch3.Fence.Completion
import Mpich.Ch3.Gpid.Forward
import Mpich.Ch3.Pg.Wire
import Mpich.Ch3.Recvq.Matching
import Mpich.Ch3.Refcount.Exact
import Mpich.Ch3.WinLock.Safety
import Mpich.Ch3.WinLock.Termination
import Mpich.Coll.Allgather.Correct
import Mpich.Coll.Allreduce.Correct
import Mpich.Coll.Alltoall.Correct
import Mpich.Coll.Barrier
import Mpich.Coll.Bcast.Correct
import Mpich.Coll.Gather.Correct
import Mpich.Coll.Reduce.Correct
import Mpich.Coll.ReduceScatter.Correct
import Mpich.Coll.Scan
import Mpich.Coll.Scatter
import Mpich.Comm.DisjointLpids
import Mpich.Comm.IntercommMerge
import Mpich.Comm.Lifetimes
import Mpich.Dataloop.Inherited
import Mpich.Dataloop.SegmentStack
import Mpich.Datatypes.ContigBlocks
import Mpich.Errhan.History
import Mpich.Errhan.Session
import Mpich.Errhan.User
import Mpich.Nemesis.Fastbox.Order
import Mpich.Nemesis.HandlePkt.Fragments
import Mpich.Nemesis.Lmt.Ownership
import Mpich.Nemesis.Queue.Runs
import Mpich.Nemesis.Send.Order
import Mpich.Pmi.Iterate
import Mpich.Pmi.KeyvalTable
import Mpich.Pmi.SpawnRun
import Mpich.Pt2pt.Bsend.Partition
import Mpich.Romio.Darray
import Mpich.Romio.Flatten.Exact
import Mpich.Romio.Independent.Interleaving
import Mpich.Romio.Strided.Read
import Mpich.Romio.TwoPhase.Agreement
import Mpich.Romio.TwoPhase.HeapMerge
import Mpich.Topo.Graph
import Mpich.Util.Argstr.StringList
import Mpich.Util.Handle.Unique
